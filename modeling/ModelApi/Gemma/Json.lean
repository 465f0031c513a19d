import ModelApi.Lib.Text

/-!
# JSON values

The values of the JSON library, with the numbers left open, and the part of its interface that the
tool-call parsers use.
-/

namespace ModelApi.Gemma

open Lib

/-- A JSON value. The entries of an object are sorted by key. -/
inductive Value (N : Type) where
  | null
  | bool (b : Bool)
  | number (n : N)
  | string (s : Str)
  | array (vs : List (Value N))
  | object (map : List (Str × Value N))

variable {N : Type}

abbrev Map (N : Type) := List (Str × Value N)

namespace Map

/-- `BTreeMap::insert`: a new entry, or a new value under an old key. -/
def insert (key : Str) (v : Value N) : Map N → Map N
  | []              => [(key, v)]
  | (k, w) :: map =>
    if key = k then (key, v) :: map
    else if key < k then (key, v) :: (k, w) :: map
    else (k, w) :: insert key v map

def get (key : Str) (map : Map N) : Option (Value N) := map.lookup key

def remove (key : Str) (map : Map N) : Map N := map.filter fun e => e.1 ≠ key

lemma get_cons (key k : Str) (w : Value N) (map : Map N) :
    get key ((k, w) :: map) = if key = k then some w else get key map := by
  rw [get, List.lookup_cons]
  by_cases h : key = k
  · rw [if_pos h, beq_iff_eq.mpr h]
  · rw [if_neg h, beq_eq_false_iff_ne.mpr h]
    rfl

@[simp] lemma get_insert_self (key : Str) (v : Value N) (map : Map N) :
    get key (insert key v map) = some v := by
  induction map with
  | nil => simp [insert, get_cons]
  | cons e map ih =>
    rw [insert]
    split_ifs with heq hlt
    · simp [get_cons]
    · simp [get_cons]
    · rw [get_cons, if_neg heq, ih]

lemma get_insert_of_ne {key key' : Str} (h : key' ≠ key) (v : Value N) (map : Map N) :
    get key' (insert key v map) = get key' map := by
  induction map with
  | nil => simp [insert, h, get]
  | cons e map ih =>
    rw [insert]
    split_ifs with heq hlt
    · rw [get_cons, if_neg h, get_cons, if_neg (heq ▸ h)]
    · rw [get_cons, if_neg h]
    · rw [get_cons, get_cons, ih]

/-- Of the entries that are inserted in turn, the last one under a key counts. -/
lemma get_foldl_insert (key : Str) (entries map : Map N) :
    get key (entries.foldl (fun map e => insert e.1 e.2 map) map) =
      (entries.reverse.lookup key).or (get key map) := by
  induction entries generalizing map with
  | nil => rfl
  | cons e entries ih =>
    have hlast : (entries.reverse ++ [e]).lookup key =
        (entries.reverse.lookup key).or (get key [e]) := List.lookup_append
    rw [List.foldl_cons, ih, List.reverse_cons, hlast, get_cons, Option.or_assoc]
    by_cases h : key = e.1
    · rw [if_pos h, h, get_insert_self]
      rfl
    · rw [if_neg h, get_insert_of_ne h]
      rfl

lemma remove_insert_self (key : Str) (v : Value N) (map : Map N) :
    remove key (insert key v map) = remove key map := by
  induction map with
  | nil => simp [insert, remove]
  | cons e map ih =>
    rw [insert]
    split_ifs with heq hlt
    · simp [remove, heq]
    · simp [remove]
    · simp only [remove, List.filter_cons] at ih ⊢
      rw [ih]

lemma remove_eq_self {key : Str} {map : Map N} (h : get key map = none) : remove key map = map := by
  induction map with
  | nil => rfl
  | cons e map ih =>
    rw [get_cons] at h
    split_ifs at h with heq
    simp only [remove] at ih ⊢
    rw [List.filter_cons_of_pos (by simpa using Ne.symm heq), ih h]

@[simp] lemma get_remove_self (key : Str) (map : Map N) : get key (remove key map) = none := by
  induction map with
  | nil => rfl
  | cons e map ih =>
    simp only [remove] at ih ⊢
    by_cases h : e.1 = key
    · rw [List.filter_cons_of_neg (by simpa using h), ih]
    · rw [List.filter_cons_of_pos (by simpa using h), get_cons, if_neg (Ne.symm h), ih]

end Map

namespace Value

def get (key : Str) : Value N → Option (Value N)
  | object map => Map.get key map
  | null | bool _ | number _ | string _ | array _ => none

def asStr : Value N → Option Str
  | string s => some s
  | null | bool _ | number _ | array _ | object _ => none

def asObject : Value N → Option (Map N)
  | object map => some map
  | null | bool _ | number _ | string _ | array _ => none

/-- Change a value through `as_object_mut`. -/
def mapObject (f : Map N → Map N) : Value N → Value N
  | object map => object (f map)
  | v => v

end Value

/-- The library: `from_str` and `to_string`, of whose errors nothing is used. -/
structure SerdeJson (N : Type) where
  fromStr : Str → Option (Value N)
  toString : Value N → Option Str

end ModelApi.Gemma
