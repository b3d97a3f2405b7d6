namespace Handheld

-- A dictionary that keeps its keys in the order of their first insertion. Inserting a known key replaces
-- its value and leaves it where it stands.
structure Dict (κ ν : Type) where
  entries : List (κ × ν)
  deriving DecidableEq, Repr

namespace Dict

variable {κ ν : Type}

def empty : Dict κ ν := ⟨[]⟩

def keys (dict : Dict κ ν) : List κ := dict.entries.map (·.1)

def values (dict : Dict κ ν) : List ν := dict.entries.map (·.2)

def size (dict : Dict κ ν) : Nat := dict.entries.length

variable [DecidableEq κ]

def lookupIn (key : κ) : List (κ × ν) → Option ν
  | [] => none
  | (k, value) :: rest => if k = key then some value else lookupIn key rest

def get? (dict : Dict κ ν) (key : κ) : Option ν := lookupIn key dict.entries

def contains (dict : Dict κ ν) (key : κ) : Bool := (dict.get? key).isSome

def insertIn (key : κ) (value : ν) : List (κ × ν) → List (κ × ν)
  | [] => [(key, value)]
  | (k, old) :: rest => if k = key then (k, value) :: rest else (k, old) :: insertIn key value rest

def insert (dict : Dict κ ν) (key : κ) (value : ν) : Dict κ ν := ⟨insertIn key value dict.entries⟩

def ofList (entries : List (κ × ν)) : Dict κ ν :=
  entries.foldl (fun dict (key, value) => dict.insert key value) empty

@[simp] theorem get?_empty (key : κ) : (empty : Dict κ ν).get? key = none := rfl

theorem lookupIn_insertIn (entries : List (κ × ν)) (key other : κ) (value : ν) :
    lookupIn other (insertIn key value entries) =
      if key = other then some value else lookupIn other entries := by
  induction entries with
  | nil => simp [insertIn, lookupIn]
  | cons entry rest ih =>
    simp only [insertIn]
    split
    · rename_i h
      subst h
      simp only [lookupIn]
      split <;> simp
    · simp only [lookupIn, ih]
      split <;> grind

theorem get?_insert (dict : Dict κ ν) (key other : κ) (value : ν) :
    (dict.insert key value).get? other = if key = other then some value else dict.get? other :=
  lookupIn_insertIn dict.entries key other value

-- A new key goes to the end.
theorem keys_insert (dict : Dict κ ν) (key : κ) (value : ν) :
    (dict.insert key value).keys = if key ∈ dict.keys then dict.keys else dict.keys ++ [key] := by
  obtain ⟨entries⟩ := dict
  simp only [insert, keys]
  induction entries with
  | nil => simp [insertIn]
  | cons entry rest ih => grind [insertIn]

end Dict

end Handheld
