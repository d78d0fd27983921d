import Stencil.Text.Quoted

set_option autoImplicit false

namespace Stencil

structure Table (α : Type) where
  entries : List (String × α)

namespace Table

variable {α : Type}

def empty : Table α := ⟨[]⟩

def find (name : String) : List (String × α) → Option α
  | [] => none
  | e :: es => if e.1 = name then some e.2 else find name es

def get? (t : Table α) (name : String) : Option α := find name t.entries

def put (name : String) (a : α) : List (String × α) → List (String × α)
  | [] => [(name, a)]
  | e :: es => if e.1 = name then (name, a) :: es else e :: put name a es

/-- Replaces the value of a name, or adds the name at the end. -/
def insert (t : Table α) (name : String) (a : α) : Table α := ⟨put name a t.entries⟩

def erase (t : Table α) (name : String) : Table α :=
  ⟨t.entries.filter fun e => decide (e.1 ≠ name)⟩

def size (t : Table α) : Nat := t.entries.length

/-- The values in `u` replace those of the same name. -/
def union (t u : Table α) : Table α := u.entries.foldl (fun t e => t.insert e.1 e.2) t

@[simp] theorem get?_empty (name : String) : (empty : Table α).get? name = none := rfl

theorem find_put (name m : String) (a : α) (es : List (String × α)) :
    find m (put name a es) = if m = name then some a else find m es := by
  induction es with
  | nil => simp [put, find, eq_comm]
  | cons e es ih => grind [put, find]

@[simp] theorem get?_insert (t : Table α) (name m : String) (a : α) :
    (t.insert name a).get? m = if m = name then some a else t.get? m :=
  find_put name m a t.entries

@[simp] theorem get?_erase (t : Table α) (name m : String) :
    (t.erase name).get? m = if m = name then none else t.get? m := by
  obtain ⟨es⟩ := t
  simp only [erase, get?]
  induction es with
  | nil => simp [find]
  | cons e es ih => grind [find]

def Distinct (t : Table α) : Prop := (t.entries.map Prod.fst).Nodup

theorem find_eq_none {name : String} {es : List (String × α)} (h : name ∉ es.map Prod.fst) :
    find name es = none := by
  induction es with
  | nil => rfl
  | cons e es ih => grind [find]

theorem mem_map_fst_put {name m : String} {a : α} {es : List (String × α)} :
    m ∈ (put name a es).map Prod.fst ↔ m = name ∨ m ∈ es.map Prod.fst := by
  induction es with
  | nil => simp [put]
  | cons e es ih => grind [put]

theorem distinct_empty : (empty : Table α).Distinct := List.nodup_nil

theorem Distinct.insert {t : Table α} (h : t.Distinct) (name : String) (a : α) :
    (t.insert name a).Distinct := by
  obtain ⟨es⟩ := t
  change (es.map Prod.fst).Nodup at h
  change ((put name a es).map Prod.fst).Nodup
  induction es with
  | nil => simp [put]
  | cons e es ih =>
    obtain ⟨he, hes⟩ := List.nodup_cons.1 h
    rw [put]
    split
    · rename_i hn
      exact List.nodup_cons.2 ⟨hn ▸ he, hes⟩
    · rename_i hn
      refine List.nodup_cons.2 ⟨?_, ih hes⟩
      rw [mem_map_fst_put]
      exact not_or.2 ⟨hn, he⟩

theorem Distinct.erase {t : Table α} (h : t.Distinct) (name : String) : (t.erase name).Distinct :=
  h.sublist (List.filter_sublist.map _)

theorem mem_put {name : String} {a : α} {e : String × α} {es : List (String × α)}
    (h : e ∈ put name a es) : e = (name, a) ∨ e ∈ es := by
  induction es with
  | nil => exact .inl (List.mem_singleton.1 h)
  | cons d es ih => grind [put]

theorem get?_union (t : Table α) {u : Table α} (h : u.Distinct) (name : String) :
    (t.union u).get? name = (u.get? name).or (t.get? name) := by
  obtain ⟨es⟩ := u
  change (es.map Prod.fst).Nodup at h
  change (es.foldl (fun t e => t.insert e.1 e.2) t).get? name = (find name es).or (t.get? name)
  induction es generalizing t with
  | nil => rfl
  | cons e es ih =>
    obtain ⟨he, hes⟩ := List.nodup_cons.1 h
    rw [List.foldl_cons, ih _ hes, get?_insert, find]
    by_cases hn : e.1 = name
    · rw [find_eq_none (hn ▸ he), if_pos hn.symm, if_pos hn]
      rfl
    · rw [if_neg (Ne.symm hn), if_neg hn]

end Table

structure Stacks (α : Type) where
  table : Table (List α)

structure Unbound where
  name : String
  deriving DecidableEq, Repr

def Unbound.message (u : Unbound) : String := "no value bound to " ++ Text.ticked u.name

namespace Stacks

variable {α : Type}

def empty : Stacks α := ⟨.empty⟩

def stack (s : Stacks α) (name : String) : List α := (s.table.get? name).getD []

def depth (s : Stacks α) (name : String) : Nat := (s.stack name).length

def isEmpty (s : Stacks α) (name : String) : Bool := s.depth name == 0

def replace (s : Stacks α) (name : String) : List α → Stacks α
  | [] => ⟨s.table.erase name⟩
  | a :: as => ⟨s.table.insert name (a :: as)⟩

def push (s : Stacks α) (name : String) (a : α) : Stacks α :=
  s.replace name (a :: s.stack name)

def top (s : Stacks α) (name : String) : Except Unbound α :=
  match s.stack name with
  | [] => .error ⟨name⟩
  | a :: _ => .ok a

def pop (s : Stacks α) (name : String) : Except Unbound (α × Stacks α) :=
  match s.stack name with
  | [] => .error ⟨name⟩
  | a :: as => .ok (a, s.replace name as)

def setTop (s : Stacks α) (name : String) (a : α) : Except Unbound (α × Stacks α) :=
  match s.stack name with
  | [] => .error ⟨name⟩
  | b :: as => .ok (b, s.replace name (a :: as))

@[simp] theorem stack_replace (s : Stacks α) (name m : String) (as : List α) :
    (s.replace name as).stack m = if m = name then as else s.stack m := by
  cases as <;> by_cases h : m = name <;> simp [replace, stack, h]

end Stacks

end Stencil
