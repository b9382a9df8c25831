/-!
TOML values, and tables while their document is read. A table can be extended only in the way in which it
was begun.
-/

namespace EnvModules.Toml

inductive Value where
  | string (text : String)
  | boolean (value : Bool)
  | number (written : String)
  | moment (written : String)
  | array (elements : List Value)
  | table (members : List (String × Value))
  deriving Repr

/-- How a table came about. -/
inductive Origin where
  /-- By its own header. -/
  | header
  /-- As a table above one with a header. -/
  | above
  /-- By a key with dots. -/
  | dotted
  deriving DecidableEq, Repr

/-- What a key stands for so far. -/
inductive Item where
  /-- A value, which cannot be extended. -/
  | value (value : Value)
  | table (origin : Origin) (members : List (String × Item))
  /-- Tables by headers in double brackets. The last one comes first. -/
  | tables (elements : List (List (String × Item)))
  deriving Repr

abbrev Members := List (String × Item)

mutual

def Item.toValue : Item → Value
  | .value v => v
  | .table _ members => .table (membersToValue members)
  | .tables elements => .array (elementsToValues elements).reverse

def membersToValue : List (String × Item) → List (String × Value)
  | [] => []
  | (key, item) :: rest => (key, item.toValue) :: membersToValue rest

def elementsToValues : List (List (String × Item)) → List Value
  | [] => []
  | members :: rest => .table (membersToValue members) :: elementsToValues rest

end

namespace Members

/-- Gives a key an item, in the place of its earlier one if it has one. -/
def put (key : String) (item : Item) : Members → Members
  | [] => [(key, item)]
  | e :: rest => if e.1 = key then (key, item) :: rest else e :: put key item rest

/-- Changes the table at a path of keys. Tables that are lacking are made on the way, and of several
tables under one key the last is meant. -/
def update (change : Members → Option Members) : List String → Members → Option Members
  | [], members => change members
  | key :: path, members =>
    match members.lookup key with
    | none => (update change path []).map fun inner => put key (.table .above inner) members
    | some (.table origin inner) =>
      (update change path inner).map fun inner => put key (.table origin inner) members
    | some (.tables (last :: before)) =>
      (update change path last).map fun last => put key (.tables (last :: before)) members
    | some (.tables []) => none
    | some (.value _) => none

/-- Begins the table of a header. Only a table that was made above another can be there already. -/
def openTable (key : String) (members : Members) : Option Members :=
  match members.lookup key with
  | none => some (put key (.table .header []) members)
  | some (.table .above inner) => some (put key (.table .header inner) members)
  | some _ => none

/-- Begins one more table of a header in double brackets. -/
def openElement (key : String) (members : Members) : Option Members :=
  match members.lookup key with
  | none => some (put key (.tables [[]]) members)
  | some (.tables elements) => some (put key (.tables ([] :: elements)) members)
  | some _ => none

/-- Gives the key at the end of a path a value. The path may lead through tables that such paths have
made, and through tables above others as long as it does not end there. -/
def assign (value : Value) : List String → Members → Option Members
  | [], _ => none
  | [key], members => if (members.lookup key).isSome then none else some (put key (.value value) members)
  | key :: path, members =>
    match members.lookup key with
    | none => (assign value path []).map fun inner => put key (.table .dotted inner) members
    | some (.table origin inner) =>
      if origin = .header ∨ (origin = .above ∧ path.length = 1) then none
      else (assign value path inner).map fun inner => put key (.table origin inner) members
    | some (.tables (last :: before)) =>
      if path.length = 1 then none
      else (assign value path last).map fun last => put key (.tables (last :: before)) members
    | some (.tables []) => none
    | some (.value _) => none

end Members

end EnvModules.Toml
