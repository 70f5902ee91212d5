import Std.Data.ExtTreeMap

/-!
# Named members

Two ways in which definitions of the same name meet. Inside a class a later definition takes the
place of an earlier one (`redefine`); along a lineage the first definition stays (`firstOfEach`).
Where a class has many members of a sort their places are remembered (`collectPlaced`), where it has
few they are searched (`collectSearched`).
-/

namespace ModelAtlas.Model

open Std

variable {α : Type}

/-- Adds a definition; one of the same name keeps its place and gives up its content. -/
def redefine (name : α → String) (members : List α) (m : α) : List α :=
  if members.any (name · == name m) then
    members.map fun old => if name old == name m then m else old
  else members ++ [m]

/-- Definitions in order, each name at its first place with its last definition. -/
def collect (name : α → String) (definitions : List α) : List α :=
  definitions.foldl (redefine name) []

/-- Members in order, and the place of each name among them. -/
structure Placed (α : Type) where
  members : Array α := #[]
  places : ExtTreeMap String Nat := ∅
  inside : ∀ {n : String} {i : Nat}, places[n]? = some i → i < members.size := by simp

/-- Adds a definition at the place of its name, or behind all others. -/
def Placed.define (name : α → String) (p : Placed α) (m : α) : Placed α :=
  match known : p.places[name m]? with
  | some i =>
    { members := p.members.set i m (p.inside known)
      places := p.places
      inside := fun found => by rw [Array.size_set]; exact p.inside found }
  | none =>
    { members := p.members.push m
      places := p.places.insert (name m) p.members.size
      inside := fun {n i} found => by
        rw [ExtTreeMap.getElem?_insert] at found
        rw [Array.size_push]
        split at found
        · exact Option.some.inj found ▸ Nat.lt_succ_self _
        · exact Nat.lt_succ_of_lt (p.inside found) }

def collectPlaced (name : α → String) (definitions : List α) : List α :=
  (definitions.foldl (Placed.define name) {}).members.toList

/-- Adds a definition at the place of the first one of its name, or behind all others. -/
def supersede (name : α → String) (members : List α) (m : α) : List α :=
  match members.findIdx? (name · == name m) with
  | some i => members.set i m
  | none => members ++ [m]

def collectSearched (name : α → String) (definitions : List α) : List α :=
  definitions.foldl (supersede name) []

/-- Members whose name has not been seen before. -/
def firstUnseen (name : α → String) : List String → List α → List α
  | _, [] => []
  | seen, m :: rest =>
    if seen.contains (name m) then firstUnseen name seen rest
    else m :: firstUnseen name (name m :: seen) rest

/-- The first member of each name. -/
def firstOfEach (name : α → String) (members : List α) : List α := firstUnseen name [] members

end ModelAtlas.Model
