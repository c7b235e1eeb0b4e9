import Mathlib.Algebra.Order.Ring.Int
import Mathlib.Data.List.Nodup

/-!
# Tables of keys

A table keeps its entries in the order in which their keys were first written. Two tables hold
the same values when every key reads the same in both, whatever the order. TOML documents are made of
such tables.
-/
namespace Library

structure KeyTable (κ β : Type) where
  entries : List (κ × β)

namespace KeyTable

variable {κ β γ : Type} [DecidableEq κ]

def getEntry : List (κ × β) → κ → Option β
  | [], _ => none
  | (key, value) :: rest, wanted => if wanted = key then some value else getEntry rest wanted

/-- The entry keeps its place; a new key goes last. -/
def insertEntry (key : κ) (value : β) : List (κ × β) → List (κ × β)
  | [] => [(key, value)]
  | (other, old) :: rest =>
    if key = other then (other, value) :: rest else (other, old) :: insertEntry key value rest

def empty : KeyTable κ β := ⟨[]⟩

def get (table : KeyTable κ β) (key : κ) : Option β := getEntry table.entries key

def contains (table : KeyTable κ β) (key : κ) : Bool := (table.get key).isSome

def insert (table : KeyTable κ β) (key : κ) (value : β) : KeyTable κ β :=
  ⟨insertEntry key value table.entries⟩

def collect (keys : List κ) (value : κ → Option β) : KeyTable κ β :=
  ⟨keys.filterMap fun key => (value key).map (Prod.mk key)⟩

theorem get_insert (table : KeyTable κ β) (key other : κ) (value : β) :
    (table.insert key value).get other = if other = key then some value else table.get other := by
  obtain ⟨entries⟩ := table
  simp only [get, insert]
  induction entries with
  | nil => rfl
  | cons entry rest ih =>
    obtain ⟨first, old⟩ := entry
    by_cases here : key = first
    · -- the entry of the key is replaced where it stands
      subst here
      rw [insertEntry, if_pos rfl]
      by_cases same : other = key <;> simp [getEntry, same]
    · rw [insertEntry, if_neg here, getEntry, getEntry, ih]
      by_cases same : other = first
      · subst same
        rw [if_pos rfl, if_pos rfl, if_neg (Ne.symm here)]
      · rw [if_neg same, if_neg same]

@[simp] theorem get_insert_self (table : KeyTable κ β) (key : κ) (value : β) :
    (table.insert key value).get key = some value := by
  rw [get_insert, if_pos rfl]

theorem get_insert_of_ne {table : KeyTable κ β} {key other : κ} {value : β} (apart : other ≠ key) :
    (table.insert key value).get other = table.get other := by
  rw [get_insert, if_neg apart]

theorem get_collect (keys : List κ) (value : κ → Option β) (key : κ) :
    (collect keys value).get key = if key ∈ keys then value key else none := by
  simp only [get, collect]
  induction keys with
  | nil => simp [getEntry]
  | cons first rest ih =>
    by_cases same : key = first
    · subst same
      rw [if_pos List.mem_cons_self]
      cases found : value key with
      | some read => simp [found, getEntry]
      | none =>
        -- the key has no value wherever it is listed
        rw [List.filterMap_cons_none (by simp [found]), ih, found]
        simp
    · simp only [List.mem_cons, same, false_or]
      cases found : value first with
      | some read =>
        rw [List.filterMap_cons_some (by rw [found]; rfl), getEntry, if_neg same, ih]
      | none => rw [List.filterMap_cons_none (by simp [found]), ih]

/-- A loop over distinct keys whose turn touches what its own key reads. -/
theorem get_foldl {step : KeyTable κ β → κ → KeyTable κ β} (update : κ → Option β → Option β)
    (own : ∀ table key other, (step table key).get other =
      if other = key then update key (table.get key) else table.get other)
    {keys : List κ} (distinct : keys.Nodup) (table : KeyTable κ β) (key : κ) :
    (keys.foldl step table).get key =
      if key ∈ keys then update key (table.get key) else table.get key := by
  induction keys generalizing table with
  | nil => simp
  | cons first rest ih =>
    obtain ⟨fresh, distinct⟩ := List.nodup_cons.mp distinct
    rw [List.foldl_cons, ih distinct, own]
    by_cases same : key = first
    · -- no later turn touches the key again
      subst same
      rw [if_neg fresh, if_pos rfl, if_pos List.mem_cons_self]
    · rw [if_neg same]
      simp only [List.mem_cons, same, false_or]

/-! ### Totals -/

def size (table : KeyTable κ β) : Nat := table.entries.length

/-- The sum of a weight that every entry has. -/
def total (weight : κ → β → Nat) (table : KeyTable κ β) : Nat :=
  (table.entries.map fun entry => weight entry.1 entry.2).sum

/-- What a key holds, or else a fresh value, is changed in place. -/
def modify (table : KeyTable κ β) (key : κ) (fresh : β) (change : β → β) : KeyTable κ β :=
  table.insert key (change ((table.get key).getD fresh))

def mapValues (f : κ → β → γ) (table : KeyTable κ β) : KeyTable κ γ :=
  ⟨table.entries.map fun entry => (entry.1, f entry.1 entry.2)⟩

theorem total_insert (weight : κ → β → Nat) (table : KeyTable κ β) (key : κ) (value : β) :
    (table.insert key value).total weight + (table.get key).elim 0 (weight key) =
      table.total weight + weight key value := by
  obtain ⟨entries⟩ := table
  simp only [total, insert, get]
  induction entries with
  | nil => simp [insertEntry, getEntry]
  | cons entry rest ih =>
    obtain ⟨first, old⟩ := entry
    by_cases here : key = first
    · subst here
      simp only [insertEntry, if_pos, getEntry, List.map_cons, List.sum_cons, Option.elim]
      omega
    · simp only [insertEntry, if_neg here, getEntry, List.map_cons, List.sum_cons]
      omega

theorem size_insert (table : KeyTable κ β) (key : κ) (value : β) :
    (table.insert key value).size = table.size + if table.contains key then 0 else 1 := by
  have counted (some_table : KeyTable κ β) : some_table.size = some_table.total fun _ _ => 1 := by
    simp [size, total]
  have exchanged := total_insert (fun _ _ => 1) table key value
  rw [counted, counted, contains]
  cases found : table.get key <;> simp only [found, Option.elim] at exchanged <;> simp <;> omega

omit [DecidableEq κ] in
theorem total_le_size {weight : κ → β → Nat} (light : ∀ key value, weight key value ≤ 1)
    (table : KeyTable κ β) : table.total weight ≤ table.size := by
  obtain ⟨entries⟩ := table
  simp only [total, size]
  induction entries with
  | nil => simp
  | cons entry rest ih =>
    have one := light entry.1 entry.2
    simp only [List.map_cons, List.sum_cons, List.length_cons]
    omega

theorem get_modify (table : KeyTable κ β) (key other : κ) (fresh : β) (change : β → β) :
    (table.modify key fresh change).get other =
      if other = key then some (change ((table.get key).getD fresh)) else table.get other :=
  get_insert ..

theorem contains_modify (table : KeyTable κ β) (key other : κ) (fresh : β) (change : β → β) :
    (table.modify key fresh change).contains other = (decide (other = key) || table.contains other) := by
  rw [contains, get_modify]
  by_cases same : other = key <;> simp [same, contains]

theorem size_modify (table : KeyTable κ β) (key : κ) (fresh : β) (change : β → β) :
    (table.modify key fresh change).size = table.size + if table.contains key then 0 else 1 :=
  size_insert ..

theorem total_modify {weight : κ → β → Nat} {key : κ} {fresh : β} {change : β → β} {added : Nat}
    (table : KeyTable κ β) (light : weight key fresh = 0)
    (adds : weight key (change ((table.get key).getD fresh)) =
      weight key ((table.get key).getD fresh) + added) :
    (table.modify key fresh change).total weight = table.total weight + added := by
  have exchanged := total_insert weight table key (change ((table.get key).getD fresh))
  rw [adds] at exchanged
  rw [modify]
  cases found : table.get key <;>
    simp only [found, Option.elim, Option.getD, light] at exchanged ⊢ <;> omega

theorem elim_get_modify {weight : β → Nat} {fresh : β} {change : β → β} {added : Nat}
    (light : weight fresh = 0) (adds : ∀ value, weight (change value) = weight value + added) (table : KeyTable κ β) (key other : κ) :
    ((table.modify key fresh change).get other).elim 0 weight =
      (table.get other).elim 0 weight + if other = key then added else 0 := by
  rw [get_modify]
  by_cases same : other = key
  · subst same
    cases table.get other <;> simp [adds, light]
  · simp [same]

theorem get_mapValues (f : κ → β → γ) (table : KeyTable κ β) (key : κ) :
    (table.mapValues f).get key = (table.get key).map (f key) := by
  obtain ⟨entries⟩ := table
  simp only [get, mapValues]
  induction entries with
  | nil => rfl
  | cons entry rest ih =>
    by_cases same : key = entry.1 <;> simp [getEntry, same]
    simpa [same] using ih

omit [DecidableEq κ] in
@[simp] theorem size_mapValues (f : κ → β → γ) (table : KeyTable κ β) :
    (table.mapValues f).size = table.size :=
  List.length_map _

omit [DecidableEq κ] in
theorem total_mapValues (weight : κ → γ → Nat) (f : κ → β → γ) (table : KeyTable κ β) :
    (table.mapValues f).total weight = table.total fun key value => weight key (f key value) := by
  simp [total, mapValues, Function.comp_def]

/-! ### Rows and cells -/

def cell (rows : KeyTable κ (KeyTable γ β)) (row : κ) (key : γ) [DecidableEq γ] : Option β :=
  (rows.get row).bind fun entries => entries.get key

/-- A cell is changed in place, in a new row where there is none. -/
def modifyCell (rows : KeyTable κ (KeyTable γ β)) (row : κ) (key : γ) [DecidableEq γ] (fresh : β)
    (change : β → β) : KeyTable κ (KeyTable γ β) :=
  rows.modify row empty fun entries => entries.modify key fresh change

section Cells

variable [DecidableEq γ] {rows : KeyTable κ (KeyTable γ β)}

theorem cell_eq_get_row (rows : KeyTable κ (KeyTable γ β)) (row : κ) (key : γ) :
    rows.cell row key = ((rows.get row).getD empty).get key := by
  rw [cell]
  cases rows.get row <;> rfl

theorem cell_modifyCell (rows : KeyTable κ (KeyTable γ β)) (row other : κ) (key wanted : γ) (fresh : β)
    (change : β → β) : (rows.modifyCell row key fresh change).cell other wanted =
      if other = row ∧ wanted = key then some (change ((rows.cell row key).getD fresh))
      else rows.cell other wanted := by
  rw [cell, modifyCell, get_modify]
  by_cases here : other = row
  · subst here
    rw [if_pos rfl, Option.bind_some, get_modify, ← cell_eq_get_row, ← cell_eq_get_row]
    simp
  · rw [if_neg here, if_neg (fun both => here both.1), ← cell]

/-- A new cell makes its row longer, and no other does. -/
theorem size_modify_row (rows : KeyTable κ (KeyTable γ β)) (row : κ) (key : γ) (fresh : β) (change : β → β) :
    (((rows.get row).getD empty).modify key fresh change).size =
      ((rows.get row).getD empty).size + if (rows.cell row key).isSome then 0 else 1 := by
  rw [size_modify, contains, ← cell_eq_get_row]

end Cells

/-! ### Changes by a list of values -/

/-- What a key holds once the values of a list have changed it, each in turn. -/
def kept {δ : Type} (fresh : β) (step : β → δ → β) : List δ → Option β
  | [] => none
  | value :: rest => some ((value :: rest).foldl step fresh)

theorem kept_concat {δ : Type} (fresh : β) (step : β → δ → β) (values : List δ) (value : δ) :
    kept fresh step (values ++ [value]) = some (step ((kept fresh step values).getD fresh) value) := by
  cases values <;> simp [kept]

end KeyTable

/-! ### TOML -/

/-- A parsed document as an editor of TOML keeps it, without comments and spacing: an array of values and an
array of tables are different things, a table and an inline table are not. -/
inductive Toml where
  | string (text : String)
  | integer (value : Int)
  | boolean (value : Bool)
  /-- A float or a date, as it is written. -/
  | scalar (text : String)
  /-- `[a, b]` -/
  | array (items : List Toml)
  /-- `[name]` or `{ … }` -/
  | table (entries : KeyTable String Toml)
  /-- `[[name]]` -/
  | arrayOfTables (tables : List (KeyTable String Toml))

namespace Toml

abbrev Table := KeyTable String Toml

def asStr : Toml → Option String
  | .string text => some text
  | _ => none

def asArray : Toml → Option (List Toml)
  | .array items => some items
  | _ => none

def asTable : Toml → Option Table
  | .table entries => some entries
  | _ => none

def asArrayOfTables : Toml → Option (List Table)
  | .arrayOfTables tables => some tables
  | _ => none

def elements : Toml → Option (List Toml)
  | .array items => some items
  | .arrayOfTables tables => some (tables.map .table)
  | _ => none

/-- An array of inline tables becomes an array of tables; an empty array does not. -/
def intoArrayOfTables : Toml → Option (List Table)
  | .arrayOfTables tables => some tables
  | .array [] => none
  | .array items => items.mapM asTable
  | _ => none

def isUnsigned (bits : Nat) : Toml → Bool
  | .integer value => 0 ≤ value ∧ value < 2 ^ bits
  | _ => false

def isBoolean : Toml → Bool
  | .boolean _ => true
  | _ => false

def isString (value : Toml) : Bool := value.asStr.isSome

def isEmpty : Toml → Bool
  | .array items => items.isEmpty
  | .table ⟨entries⟩ => entries.isEmpty
  | .arrayOfTables tables => tables.isEmpty
  | _ => false

/-- The name of a unit variant: a string, or the one key of a table over something empty. -/
def unitVariant : Toml → Option String
  | .string name => some name
  | .table ⟨[(name, value)]⟩ => if value.isEmpty then some name else none
  | _ => none

/-- A list of values that all read as one type. -/
def isVecOf (reads : Toml → Bool) (value : Toml) : Bool :=
  match value.elements with
  | some items => items.all reads
  | none => false

theorem asStr_eq_some {value : Toml} {text : String} :
    value.asStr = some text ↔ value = .string text := by
  cases value <;> simp [asStr]

theorem asArrayOfTables_eq_some {value : Toml} {tables : List Table} :
    value.asArrayOfTables = some tables ↔ value = .arrayOfTables tables := by
  cases value <;> simp [asArrayOfTables]

theorem mapM_asTable {items : List Toml} {tables : List Table}
    (converted : items.mapM asTable = some tables) : items = tables.map .table := by
  induction items generalizing tables with
  | nil =>
    cases converted
    rfl
  | cons item items ih =>
    rw [List.mapM_cons] at converted
    cases item with
    | table entries =>
      obtain ⟨rest, later, rfl⟩ : ∃ rest, items.mapM asTable = some rest ∧ entries :: rest = tables := by
        simpa [asTable, Option.bind_eq_some_iff] using converted
      rw [ih later, List.map_cons]
    | _ => simp [asTable] at converted

theorem elements_of_intoArrayOfTables {value : Toml} {tables : List Table}
    (converted : value.intoArrayOfTables = some tables) :
    value.elements = some (tables.map .table) := by
  cases value with
  | array items =>
    cases items with
    | nil => cases converted
    | cons item items => exact congrArg some (mapM_asTable converted)
  | arrayOfTables others =>
    cases converted
    rfl
  | _ => cases converted

end Toml

end Library
