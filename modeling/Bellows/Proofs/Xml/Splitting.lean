import Bellows.Proofs.SideBySide
import Bellows.Xml.Element

/-! One measure of a document split in two. Whatever is searched for, measures apart, is found in
both documents, and looks the same from outside. -/
namespace Bellows.Xml.Element

/-- A child of an element that states what holds from there on. -/
def States (e : Element) : Prop := ∃ child ∈ e.children, child.tag = "attributes"

instance (e : Element) : Decidable e.States := by
  unfold States
  infer_instance

/-- Somewhere in a document a measure of a part is split into two, each with attributes of its own.
The second one makes no statement. -/
inductive Split : Element → Element → Prop
  | here (attributes : List (String × String)) (text : String) (before after : List Element)
    {m first second : Element} (hm : m.tag = "measure") (hfirst : first.tag = "measure")
    (hsecond : second.tag = "measure") (hchildren : m.children = first.children ++ second.children)
    (hstates : ¬ second.States) :
    Split (mk "part" attributes text (before ++ m :: after))
      (mk "part" attributes text (before ++ first :: second :: after))
  | deeper (tag : String) (attributes : List (String × String)) (text : String)
    (before after : List Element) {child child' : Element} (h : Split child child') :
    Split (mk tag attributes text (before ++ child :: after))
      (mk tag attributes text (before ++ child' :: after))

/-- The same element, with at most one measure in it split. -/
def Rebarred (e e' : Element) : Prop := e = e' ∨ e.Split e'

variable {e e' : Element} {es es' before after : List Element} {tag : String}

theorem amongWithTag_eq (tag : String) (es : List Element) :
    amongWithTag tag es = es.flatMap (withTag tag) := by
  induction es with
  | nil => rfl
  | cons e es ih => rw [amongWithTag, ih, List.flatMap_cons]

/-- An element without the tag has it only among what is below. -/
theorem withTag_of_ne (h : e.tag ≠ tag) : e.withTag tag = e.children.flatMap (withTag tag) := by
  cases e with
  | mk own attributes text children =>
    have hown : ¬ own = tag := h
    rw [withTag, if_neg hown, amongWithTag_eq]
    rfl

mutual

theorem tag_of_mem_withTag {x : Element} :
    ∀ {e : Element}, x ∈ e.withTag tag → x.tag = tag
  | mk own attributes text children, hx => by
    rw [withTag] at hx
    split at hx
    · next hown =>
      rcases List.mem_cons.mp hx with rfl | hx
      · exact hown
      · exact tag_of_mem_amongWithTag hx
    · exact tag_of_mem_amongWithTag hx

theorem tag_of_mem_amongWithTag {x : Element} :
    ∀ {es : List Element}, x ∈ amongWithTag tag es → x.tag = tag
  | [], hx => by cases hx
  | e :: es, hx => by
    rw [amongWithTag] at hx
    rcases List.mem_append.mp hx with hx | hx
    · exact tag_of_mem_withTag hx
    · exact tag_of_mem_amongWithTag hx

end

namespace Rebarred

theorem refl (e : Element) : e.Rebarred e := Or.inl rfl

theorem same (es : List Element) : List.Forall₂ Rebarred es es :=
  List.forall₂_same.mpr fun e _ => refl e

theorem around (h : e.Rebarred e') (before after : List Element) :
    List.Forall₂ Rebarred (before ++ e :: after) (before ++ e' :: after) :=
  List.rel_append (same before) (.cons h (same after))

section

variable (h : e.Rebarred e')
include h

theorem tag_eq : e.tag = e'.tag := by
  rcases h with rfl | h
  · rfl
  · cases h <;> rfl

theorem text_eq : e.text = e'.text := by
  rcases h with rfl | h
  · rfl
  · cases h <;> rfl

theorem attributes_eq : e.attributes = e'.attributes := by
  rcases h with rfl | h
  · rfl
  · cases h <;> rfl

theorem attribute?_eq (name : String) : e.attribute? name = e'.attribute? name := by
  rw [attribute?, attribute?, h.attributes_eq]

/-- Only a part can have children that the other one lacks. -/
theorem children (htag : e.tag ≠ "part") : List.Forall₂ Rebarred e.children e'.children := by
  rcases h with rfl | h
  · exact same _
  · cases h with
    | here => exact (htag rfl).elim
    | deeper _ _ _ before after h => exact around (Or.inr h) before after

/-- And it lacks none but measures. -/
theorem childrenWith (htag : tag ≠ "measure") :
    List.Forall₂ Rebarred (e.childrenWith tag) (e'.childrenWith tag) := by
  have hfilter {es es' : List Element} (hes : List.Forall₂ Rebarred es es') :
      List.Forall₂ Rebarred (es.filter fun child => child.tag = tag)
        (es'.filter fun child => child.tag = tag) :=
    List.rel_filter (fun _ _ hc => by simp only [hc.tag_eq]) hes
  rcases h with rfl | h
  · exact same _
  · cases h with
    | here attributes text before after hm hfirst hsecond =>
      have hskip {m : Element} (hm : m.tag = "measure") (rest : List Element) :
          ((m :: rest).filter fun child => child.tag = tag) =
            rest.filter fun child => child.tag = tag :=
        List.filter_cons_of_neg fun heq => htag ((of_decide_eq_true heq).symm.trans hm)
      unfold Element.childrenWith Element.children
      rw [List.filter_append, List.filter_append, hskip hm, hskip hfirst, hskip hsecond]
      exact same _
    | deeper _ _ _ before after h => exact hfilter (around (Or.inr h) before after)

theorem child? (htag : tag ≠ "measure") :
    Option.Rel Rebarred (e.child? tag) (e'.child? tag) := by
  have hchildren := h.childrenWith htag
  unfold Element.childrenWith at hchildren
  rw [Element.child?, Element.child?, ← List.head?_filter, ← List.head?_filter]
  generalize (e.children.filter fun child => child.tag = tag) = found,
    (e'.children.filter fun child => child.tag = tag) = found' at hchildren ⊢
  cases hchildren with
  | nil => exact .none
  | cons hc _ => exact .some hc

theorem childText?_eq (htag : tag ≠ "measure") : e.childText? tag = e'.childText? tag :=
  map_eq_of_rel (h.child? htag) fun _ _ hc => hc.text_eq

omit h in
/-- One tag of a path after another finds related elements. -/
theorem rel_descend {path : List String} (hpath : "measure" ∉ path)
    (hes : List.Forall₂ Rebarred es es') :
    List.Forall₂ Rebarred (path.foldl (fun es tag => es.flatMap (Element.childrenWith tag)) es)
      (path.foldl (fun es tag => es.flatMap (Element.childrenWith tag)) es') := by
  induction path generalizing es es' with
  | nil => exact hes
  | cons tag path ih =>
    rw [List.mem_cons, not_or] at hpath
    exact ih hpath.2 (List.rel_flatMap hes fun _ _ hc => hc.childrenWith (Ne.symm hpath.1))

theorem has_eq {path : List String} (hpath : "measure" ∉ path) : e.has path = e'.has path := by
  have hfound : List.Forall₂ Rebarred (e.atPath path) (e'.atPath path) :=
    rel_descend hpath (.cons h .nil)
  unfold has
  generalize e.atPath path = found, e'.atPath path = found' at hfound ⊢
  cases hfound <;> rfl

end

end Rebarred

namespace Split

/-- The elements with a tag are the same on both sides. -/
theorem withTag (h : e.Split e') (htag : tag ≠ "measure") :
    List.Forall₂ Rebarred (e.withTag tag) (e'.withTag tag) := by
  -- the tag of an element is the same on both sides, so it is enough to look below
  have hown {own : String} {attributes : List (String × String)} {text : String}
      {es es' : List Element}
      (hsplit : (mk own attributes text es).Split (mk own attributes text es'))
      (hbelow : List.Forall₂ Rebarred (es.flatMap (Element.withTag tag))
        (es'.flatMap (Element.withTag tag))) :
      List.Forall₂ Rebarred ((mk own attributes text es).withTag tag)
        ((mk own attributes text es').withTag tag) := by
    rw [Element.withTag, Element.withTag, amongWithTag_eq, amongWithTag_eq]
    split
    · exact .cons (Or.inr hsplit) hbelow
    · exact hbelow
  induction h with
  | here attributes text before after hm hfirst hsecond hchildren hstates =>
    refine hown (.here attributes text before after hm hfirst hsecond hchildren hstates) ?_
    have hne {m : Element} (hm : m.tag = "measure") : m.tag ≠ tag := fun heq => htag (heq ▸ hm)
    rw [List.flatMap_append, List.flatMap_append, List.flatMap_cons, List.flatMap_cons,
      List.flatMap_cons, withTag_of_ne (hne hm), withTag_of_ne (hne hfirst),
      withTag_of_ne (hne hsecond), hchildren, List.flatMap_append, List.append_assoc]
    exact Rebarred.same _
  | deeper own attributes text before after h ih =>
    refine hown (.deeper own attributes text before after h) ?_
    rw [List.flatMap_append, List.flatMap_append, List.flatMap_cons, List.flatMap_cons]
    exact List.rel_append (Rebarred.same _) (List.rel_append ih (Rebarred.same _))

end Split

theorem Rebarred.withTag (h : e.Rebarred e') (htag : tag ≠ "measure") :
    List.Forall₂ Rebarred (e.withTag tag) (e'.withTag tag) := by
  rcases h with rfl | h
  · exact same _
  · exact h.withTag htag

end Bellows.Xml.Element
