import Stencil.Tree.Node

/-! The tidy shape of a tree, and how any tree is brought to it. -/

set_option autoImplicit false

namespace Stencil

namespace Element

def isBound : Element → Bool
  | .number _ => true
  | .variable _ => true
  | .string s => (Number.read? s.toList).isSome
  | _ => false

end Element

def Header.arguments (h : Header) : List Element := .variable h.counter :: h.bounds

namespace Node

mutual

def elements : Node → List Element
  | .document children => elementsOfAll children
  | .text _ => []
  | .loop h body => h.arguments ++ elementsOfAll body
  | .echo es => es

def elementsOfAll : List Node → List Element
  | [] => []
  | n :: ns => n.elements ++ elementsOfAll ns

end

mutual

def bounds : Node → List Element
  | .document children => boundsOfAll children
  | .text _ => []
  | .loop h body => h.bounds ++ boundsOfAll body
  | .echo _ => []

def boundsOfAll : List Node → List Element
  | [] => []
  | n :: ns => n.bounds ++ boundsOfAll ns

end

def startsText : List Node → Bool
  | .text _ :: _ => true
  | _ => false

/-- Neither documents nor empty texts, and no text beside a text. -/
inductive Tidy : List Node → Prop where
  | nil : Tidy []
  | text {s : String} {ns : List Node} :
    s ≠ "" → startsText ns = false → Tidy ns → Tidy (.text s :: ns)
  | loop {h : Header} {body ns : List Node} : Tidy body → Tidy ns → Tidy (.loop h body :: ns)
  | echo {es : List Element} {ns : List Node} : Tidy ns → Tidy (.echo es :: ns)

def IsTidy (t : Node) : Prop := ∃ ns, t = .document ns ∧ Tidy ns

def consText (s : String) : List Node → List Node
  | .text t :: ns => .text (s ++ t) :: ns
  | ns => if s = "" then ns else .text s :: ns

mutual

/-- The nodes of a tree, its documents taken apart, before the nodes `rest`. -/
def tidyOnto : Node → List Node → List Node
  | .document children, rest => tidyAllOnto children rest
  | .text s, rest => consText s rest
  | .loop h body, rest => .loop h (tidyAllOnto body []) :: rest
  | .echo es, rest => .echo es :: rest

def tidyAllOnto : List Node → List Node → List Node
  | [], rest => rest
  | n :: ns, rest => n.tidyOnto (tidyAllOnto ns rest)

end

def tidied (t : Node) : Node := .document (t.tidyOnto [])

theorem tidy_consText {s : String} {ns : List Node} (h : Tidy ns) : Tidy (consText s ns) := by
  unfold consText
  split
  · cases h with
    | text ht hs hn =>
      refine .text ?_ hs hn
      simp [String.append_eq_empty_iff, ht]
  · rename_i hn
    split
    · exact h
    · rename_i hs
      refine .text hs ?_ h
      unfold startsText
      split
      · exact absurd rfl (hn _ _)
      · rfl

mutual

theorem tidy_tidyOnto : ∀ (n : Node) {rest : List Node}, Tidy rest → Tidy (n.tidyOnto rest)
  | .document children, _, h => tidy_tidyAllOnto children h
  | .text _, _, h => tidy_consText h
  | .loop _ body, _, h => .loop (tidy_tidyAllOnto body .nil) h
  | .echo _, _, h => .echo h

theorem tidy_tidyAllOnto : ∀ (ns : List Node) {rest : List Node},
    Tidy rest → Tidy (tidyAllOnto ns rest)
  | [], _, h => h
  | n :: ns, _, h => tidy_tidyOnto n (tidy_tidyAllOnto ns h)

end

/-- `f` of a tree and `F` of a list of trees do not depend on how texts and documents are cut. -/
structure Seamless {M : Type} (op : M → M → M) (f : Node → M) (F : List Node → M) : Prop where
  assoc : ∀ x y z, op (op x y) z = op x (op y z)
  nil : ∀ x, op (F []) x = x
  right_nil : ∀ x, op x (F []) = x
  cons : ∀ n ns, F (n :: ns) = op (f n) (F ns)
  document : ∀ ns, f (.document ns) = F ns
  empty : ∀ x, op (f (.text "")) x = x
  text : ∀ s t, f (.text (s ++ t)) = op (f (.text s)) (f (.text t))
  loop : ∀ h ms ns, F ms = F ns → f (.loop h ms) = f (.loop h ns)

namespace Seamless

variable {M : Type} {op : M → M → M} {f : Node → M} {F : List Node → M}

theorem consText (h : Seamless op f F) (s : String) (ns : List Node) :
    F (consText s ns) = op (f (.text s)) (F ns) := by
  unfold Node.consText
  split
  · rw [h.cons, h.text, h.cons, h.assoc]
  · split
    · rename_i hs
      rw [hs, h.empty]
    · rw [h.cons]

mutual

theorem tidyOnto (h : Seamless op f F) : ∀ (n : Node) (rest : List Node),
    F (n.tidyOnto rest) = op (f n) (F rest)
  | .document children, rest => by
    rw [Node.tidyOnto, h.document, h.tidyAllOnto children rest]
  | .text s, rest => h.consText s rest
  | .loop header body, rest => by
    have hb : F (Node.tidyAllOnto body []) = F body := by
      rw [h.tidyAllOnto body [], h.right_nil]
    rw [Node.tidyOnto, h.cons, h.loop header _ _ hb]
  | .echo es, rest => h.cons _ rest

theorem tidyAllOnto (h : Seamless op f F) : ∀ (ns rest : List Node),
    F (tidyAllOnto ns rest) = op (F ns) (F rest)
  | [], rest => (h.nil _).symm
  | n :: ns, rest => by
    rw [Node.tidyAllOnto, h.tidyOnto n, h.tidyAllOnto ns rest, h.cons, h.assoc]

end

theorem tidied (h : Seamless op f F) (t : Node) : f t.tidied = f t := by
  rw [Node.tidied, h.document, h.tidyOnto, h.right_nil]

/-- Lists that the tree is written into end to end. -/
theorem append {α : Type} {f : Node → List α} {F : List Node → List α} (nil : F [] = [])
    (cons : ∀ n ns, F (n :: ns) = f n ++ F ns) (document : ∀ ns, f (.document ns) = F ns)
    (empty : f (.text "") = []) (text : ∀ s t, f (.text (s ++ t)) = f (.text s) ++ f (.text t))
    (loop : ∀ h ms ns, F ms = F ns → f (.loop h ms) = f (.loop h ns)) :
    Seamless (· ++ ·) f F where
  assoc := List.append_assoc
  nil _ := by rw [nil, List.nil_append]
  right_nil _ := by rw [nil, List.append_nil]
  cons := cons
  document := document
  empty _ := by rw [empty, List.nil_append]
  text := text
  loop := loop

end Seamless

theorem seamless_wire : Seamless (· ++ ·) wire wireAll :=
  .append rfl (fun _ _ => rfl) (fun _ => rfl) rfl (fun s t => by simp [wire, escapeText])
    fun _ _ _ h => by rw [wire, wire, h]

theorem seamless_elements : Seamless (· ++ ·) elements elementsOfAll :=
  .append rfl (fun _ _ => rfl) (fun _ => rfl) rfl (fun _ _ => rfl)
    fun _ _ _ h => by rw [elements, elements, h]

theorem seamless_bounds : Seamless (· ++ ·) bounds boundsOfAll :=
  .append rfl (fun _ _ => rfl) (fun _ => rfl) rfl (fun _ _ => rfl)
    fun _ _ _ h => by rw [bounds, bounds, h]

theorem tidyAllOnto_nil {ns : List Node} (h : Tidy ns) : tidyAllOnto ns [] = ns := by
  induction h with
  | nil => rfl
  | @text s ns hs hn _ ih =>
    rw [tidyAllOnto, ih, tidyOnto]
    unfold consText
    split
    · contradiction
    · rw [if_neg hs]
  | loop _ _ ihb ih => rw [tidyAllOnto, ih, tidyOnto, ihb]
  | echo _ ih => rw [tidyAllOnto, ih, tidyOnto]

theorem tidied_of_isTidy {t : Node} (h : t.IsTidy) : t.tidied = t := by
  obtain ⟨ns, rfl, hn⟩ := h
  rw [tidied, tidyOnto, tidyAllOnto_nil hn]

end Node

end Stencil
