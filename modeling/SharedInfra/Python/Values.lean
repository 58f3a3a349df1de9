import SharedInfra.Python.Text

/-!
# Values

What `json.loads` builds, with Python's equality (`same`): `True` is 1, and two dicts
are equal when they hold equal values under the same names, in whatever order.  Equal values
are those of one normal form (`same_iff`).
-/

namespace SharedInfra.Python

/-- A value; of the entries of an object under one name the first counts. -/
inductive Val where
  | null
  | bool (value : Bool)
  | number (value : ℚ)
  | string (text : Str)
  | array (items : List Val)
  | object (fields : List (Str × Val))

abbrev Dict := List (Str × Val)

namespace Val

section Equality

mutual

def beq : Val → Val → Bool
  | .null, .null => true
  | .bool a, .bool b => a == b
  | .number a, .number b => a == b
  | .string a, .string b => a == b
  | .array a, .array b => beqItems a b
  | .object a, .object b => beqFields a b
  | _, _ => false

def beqItems : List Val → List Val → Bool
  | [], [] => true
  | a :: as, b :: bs => beq a b && beqItems as bs
  | _, _ => false

def beqFields : List (Str × Val) → List (Str × Val) → Bool
  | [], [] => true
  | (name, a) :: as, (name', b) :: bs => name == name' && beq a b && beqFields as bs
  | _, _ => false

end

mutual

theorem beq_iff : ∀ a b : Val, beq a b = true ↔ a = b
  | .null, b => by cases b <;> simp [beq]
  | .bool _, b => by cases b <;> simp [beq]
  | .number _, b => by cases b <;> simp [beq]
  | .string _, b => by cases b <;> simp [beq]
  | .array items, b => by
    cases b with
    | array items' => simp [beq, beqItems_iff items items']
    | _ => simp [beq]
  | .object fields, b => by
    cases b with
    | object fields' => simp [beq, beqFields_iff fields fields']
    | _ => simp [beq]

theorem beqItems_iff : ∀ a b : List Val, beqItems a b = true ↔ a = b
  | [], b => by cases b <;> simp [beqItems]
  | x :: xs, b => by
    cases b with
    | nil => simp [beqItems]
    | cons y ys => simp [beqItems, beq_iff x y, beqItems_iff xs ys]

theorem beqFields_iff : ∀ a b : List (Str × Val), beqFields a b = true ↔ a = b
  | [], b => by cases b <;> simp [beqFields]
  | (name, x) :: xs, b => by
    cases b with
    | nil => simp [beqFields]
    | cons y ys =>
      obtain ⟨name', y⟩ := y
      simp [beqFields, beq_iff x y, beqFields_iff xs ys, and_assoc]

end

instance : DecidableEq Val := fun a b => decidable_of_iff _ (beq_iff a b)

/-- Put an entry into a dict in the order of the names. -/
def insertField (name : Str) (value : Val) : Dict → Dict
  | [] => [(name, value)]
  | (other, v) :: fields =>
    if name = other then (name, value) :: fields
    else if name < other then (name, value) :: (other, v) :: fields
    else (other, v) :: insertField name value fields

mutual

/-- The form that equal values share. -/
def normal : Val → Val
  | .bool value => .number (if value then 1 else 0)
  | .array items => .array (normalItems items)
  | .object fields => .object (normalFields fields)
  | v => v

def normalItems : List Val → List Val
  | [] => []
  | v :: vs => normal v :: normalItems vs

def normalFields : List (Str × Val) → List (Str × Val)
  | [] => []
  | (name, v) :: fields => insertField name (normal v) (normalFields fields)

end

/-- `==`. -/
def same (a b : Val) : Bool := beq (normal a) (normal b)

variable {a b c : Val}

theorem same_iff : same a b = true ↔ normal a = normal b := beq_iff _ _

@[simp] theorem same_refl (a : Val) : same a a = true := same_iff.mpr rfl

end Equality

/-- Whether a value may be the key of a dict or the element of a set. -/
def hashable : Val → Bool
  | .array _ => false
  | .object _ => false
  | _ => true

mutual

/-- The strings in a value, the names of its entries among them. -/
def strings : Val → List Str
  | .string text => [text]
  | .array items => stringsItems items
  | .object fields => stringsFields fields
  | _ => []

def stringsItems : List Val → List Str
  | [] => []
  | v :: vs => strings v ++ stringsItems vs

def stringsFields : List (Str × Val) → List Str
  | [] => []
  | (name, v) :: fields => name :: (strings v ++ stringsFields fields)

end

/-- Whether a value is the string `text`. -/
def isString (v : Val) (text : Str) : Bool := same v (.string text)

theorem isString_iff {v : Val} {text : Str} : v.isString text = true ↔ v = .string text := by
  rw [isString, same_iff]
  cases v <;> simp [normal]

end Val

namespace Dict

/-- `d.get(name)`, of the entries of the dict. -/
def get? (d : Dict) (name : Str) : Option Val := d.lookup name

/-- `d.get(name)`, with `None` for what is not there. -/
def get (d : Dict) (name : Str) : Val := (get? d name).getD .null

/-- `d[name] = value`. -/
def put (d : Dict) (name : Str) (value : Val) : Dict :=
  match d with
  | [] => [(name, value)]
  | (other, v) :: fields =>
    if name = other then (other, value) :: fields else (other, v) :: put fields name value

/-- `d.update(fields)`. -/
def update (d fields : Dict) : Dict := fields.foldl (fun d field => put d field.1 field.2) d

variable {d fields : Dict} {name other : Str} {value : Val}

theorem get?_put_self (d : Dict) (name : Str) (value : Val) :
    get? (put d name value) name = some value := by
  induction d with
  | nil => simp [put, get?]
  | cons field d ih =>
    obtain ⟨other, v⟩ := field
    by_cases h : name = other
    · subst h
      simp [put, get?]
    · rw [put, if_neg h, get?, List.lookup_cons, beq_eq_false_iff_ne.mpr h]
      exact ih

theorem get?_put_of_ne (h : other ≠ name) : get? (put d name value) other = get? d other := by
  induction d with
  | nil => simp [put, get?, List.lookup_cons, beq_eq_false_iff_ne.mpr h]
  | cons field d ih =>
    obtain ⟨third, v⟩ := field
    by_cases hname : name = third
    · subst hname
      rw [put, if_pos rfl, get?, get?, List.lookup_cons, List.lookup_cons,
        beq_eq_false_iff_ne.mpr h]
    · rw [put, if_neg hname, get?, get?, List.lookup_cons, List.lookup_cons]
      cases other == third with
      | true => rfl
      | false => exact ih

theorem get?_update_of_not_mem (h : other ∉ fields.map Prod.fst) :
    get? (update d fields) other = get? d other := by
  induction fields generalizing d with
  | nil => rfl
  | cons field fields ih =>
    rw [List.map_cons, List.mem_cons, not_or] at h
    exact (ih h.2).trans (get?_put_of_ne h.1)

theorem get?_update_of_mem (hnodup : (fields.map Prod.fst).Nodup) (h : (name, value) ∈ fields) :
    get? (update d fields) name = some value := by
  induction fields generalizing d with
  | nil => cases h
  | cons field fields ih =>
    rw [List.map_cons, List.nodup_cons] at hnodup
    rcases List.mem_cons.mp h with rfl | hmem
    · exact (get?_update_of_not_mem hnodup.1).trans (get?_put_self _ _ _)
    · exact ih hnodup.2 hmem

end Dict

end SharedInfra.Python
