import Sweep.Fault

/-!
# Bind groups

Keys in one **group** advance together: wherever one of them takes its third element, the others
take theirs. A key belongs to at most one group, which `bind` sees to; a key that no group holds
stands for itself.

A list of keys to expand names at most one key per group. `drivers` brings any list to that form:
the first member of a group that it meets drives the group, and later members are taken out. Taking
out moves the last key of the list into the gap, so the order of the others may change.
-/

set_option autoImplicit false

namespace Sweep

/-- The declared bind groups. -/
structure Bindings where
  groups : List (List Key)
deriving DecidableEq, Repr

namespace Bindings

def empty : Bindings := ⟨[]⟩

def isBound (b : Bindings) (key : Key) : Bool := b.groups.any (·.contains key)

/-- The first key that is bound already or stands among the `earlier` ones. -/
def firstClash? (b : Bindings) : (earlier : List Key) → List Key → Option Key
  | _, [] => none
  | earlier, key :: rest =>
    if earlier.contains key || b.isBound key then some key else firstClash? b (key :: earlier) rest

/-- One more group, whose keys must be new and distinct. -/
def bind (b : Bindings) (group : List Key) : Except Fault Bindings :=
  match b.firstClash? [] group with
  | some key => .error (.duplicateBinding key)
  | none => .ok ⟨b.groups ++ [group]⟩

def bindAll : Bindings → List (List Key) → Except Fault Bindings
  | b, [] => .ok b
  | b, group :: rest =>
    match b.bind group with
    | .ok b => bindAll b rest
    | .error fault => .error fault

def ofGroups (groups : List (List Key)) : Except Fault Bindings := bindAll empty groups

/-- The group of a key, the key alone if it is unbound. -/
def find (b : Bindings) (key : Key) : List Key :=
  (b.groups.find? (·.contains key)).getD [key]

def others (b : Bindings) (key : Key) : List Key := (b.find key).filter (· ≠ key)

/-- The keys without the first occurrence of one of them; the last key moves into the gap. -/
def takeOut (key : Key) : List Key → List Key
  | [] => []
  | other :: rest =>
    if other = key then
      match rest.getLast? with
      | none => []
      | some last => last :: rest.dropLast
    else other :: takeOut key rest

/-- The keys without the first occurrence of each of some members. -/
def takeOutAll (members : List Key) (keys : List Key) : List Key :=
  members.foldl (fun keys member => takeOut member keys) keys

theorem length_takeOut_le (key : Key) (keys : List Key) :
    (takeOut key keys).length ≤ keys.length := by
  induction keys with
  | nil => simp [takeOut]
  | cons other rest ih =>
    unfold takeOut
    split
    · split
      · simp
      · rename_i last h
        have : rest ≠ [] := by rintro rfl; simp at h
        have := List.length_pos_iff.2 this
        simp only [List.length_cons, List.length_dropLast]; omega
    · simp only [List.length_cons]; omega

theorem length_takeOutAll_le (members keys : List Key) :
    (takeOutAll members keys).length ≤ keys.length := by
  induction members generalizing keys with
  | nil => simp [takeOutAll]
  | cons member rest ih => exact Nat.le_trans (ih _) (length_takeOut_le _ _)

/-- One key per group: the first one of each, later members of its group taken out. -/
def drivers (b : Bindings) : List Key → List Key
  | [] => []
  | driver :: rest =>
    have := length_takeOutAll_le (b.others driver) rest
    driver :: drivers b (takeOutAll (b.others driver) rest)
termination_by keys => keys.length

end Bindings

end Sweep
