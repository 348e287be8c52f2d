import CopyPatch.Toml.Scalar

/-! Reading a TOML document. Tables are grown in place: the document so far and the path of the
table whose keys are being read. A table that only stands on the way to another may be opened
once by a header of its own; a table made by a dotted key may be extended by dotted keys only. -/
namespace CopyPatch.Toml

/-- A document under construction. Tables that were written as values are leaves. -/
inductive Node where
  | leaf (value : Value)
  | table (implied dotted : Bool) (entries : List (String × Node))
  | tables (elements : List (List (String × Node)))

mutual

def Node.toValue : Node → Value
  | .leaf value => value
  | .table _ _ entries => .table (entryValues entries)
  | .tables elements => .array (elementValues elements)

def entryValues : List (String × Node) → List (String × Value)
  | [] => []
  | (key, node) :: rest => (key, node.toValue) :: entryValues rest

def elementValues : List (List (String × Node)) → List Value
  | [] => []
  | entries :: rest => .table (entryValues entries) :: elementValues rest

end

/-- A table under construction: `implied` if nothing but the keys below it has named it, `dotted`
if a dotted key made it. -/
structure Table where
  implied : Bool := false
  dotted : Bool := false
  entries : List (String × Node) := []

namespace Table

def node (table : Table) : Node := .table table.implied table.dotted table.entries

/-- The table with the value at a key replaced, or added at the end. -/
def put (table : Table) (key : String) (node : Node) : Table :=
  if table.entries.any (·.1 = key) then
    { table with entries := table.entries.map fun e => if e.1 = key then (key, node) else e }
  else { table with entries := table.entries ++ [(key, node)] }

/-- Change the table at a path. Missing tables are made on the way; a list of tables stands for
its last element. With `dotted`, only tables that have no header or value of their own are
entered. -/
def descend (dotted : Bool) (change : Table → Option Table) : List String → Table → Option Table
  | [], table => change table
  | key :: rest, table =>
    match table.entries.lookup key with
    | none => do
      let child ← descend dotted change rest { implied := true, dotted := dotted }
      return table.put key child.node
    | some (.leaf _) => none
    | some (.table implied made entries) =>
      if dotted && !implied then none
      else do
        let child ← descend dotted change rest ⟨implied, made, entries⟩
        return table.put key child.node
    | some (.tables elements) => do
      let child ← descend dotted change rest ⟨false, false, ← elements.getLast?⟩
      return table.put key (.tables (elements.dropLast ++ [child.entries]))

/-- Add a key, dotted or not. A key stands once, and a table takes either dotted keys from
outside or keys of its own. -/
def insert (keys : List String) (value : Value) (table : Table) : Option Table := do
  let key ← keys.getLast?
  let path := keys.dropLast
  descend true (fun target =>
    if target.dotted = path.isEmpty || target.entries.any (·.1 = key) then none
    else some (target.put key (.leaf value))) path table

/-- Open the table of a header. -/
def openTable (keys : List String) (table : Table) : Option Table := do
  let key ← keys.getLast?
  descend false (fun parent =>
    match parent.entries.lookup key with
    | none => some (parent.put key (.table false false []))
    | some (.table true false entries) => some (parent.put key (.table false false entries))
    | some _ => none) keys.dropLast table

/-- Open a new element of a list of tables. -/
def openElement (keys : List String) (table : Table) : Option Table := do
  let key ← keys.getLast?
  descend false (fun parent =>
    match parent.entries.lookup key with
    | none => some (parent.put key (.tables [[]]))
    | some (.tables elements) => some (parent.put key (.tables (elements ++ [[]])))
    | some _ => none) keys.dropLast table

end Table

/-- The items of an array after its bracket. -/
def arrayItems (item : Reader Value) : Nat → Reader (List Value)
  | 0, _ => none
  | fuel + 1, cs =>
    match skipFiller cs.length cs with
    | ']' :: rest => some ([], rest)
    | cs => do
      let (value, rest) ← item cs
      match skipFiller rest.length rest with
      | ']' :: rest => some ([value], rest)
      | ',' :: rest => do
        let (values, rest) ← arrayItems item fuel rest
        return (value :: values, rest)
      | _ => none

/-- A key and its value. -/
def pair (item : Reader Value) (cs : List Char) : Option ((List String × Value) × List Char) := do
  let (keys, rest) ← key cs
  let rest ← mark '=' rest
  let (value, rest) ← item (skipSpace rest)
  return ((keys, value), rest)

/-- The pairs of a table written on one line, of which there is at least one. -/
def inlinePairs (item : Reader Value) : Nat → Reader (List (List String × Value))
  | 0, _ => none
  | fuel + 1, cs => do
    let (entry, rest) ← pair item cs
    match skipSpace rest with
    | '\x7d' :: rest => some ([entry], rest)
    | ',' :: rest => do
      let (entries, rest) ← inlinePairs item fuel rest
      return (entry :: entries, rest)
    | _ => none

def inlineTable (item : Reader Value) (cs : List Char) : Option (Value × List Char) :=
  match skipSpace cs with
  | '\x7d' :: rest => some (.table [], rest)
  | cs => do
    let (pairs, rest) ← inlinePairs item cs.length cs
    let table ← pairs.foldlM (fun table (keys, value) => table.insert keys value) ({} : Table)
    return (.table (entryValues table.entries), rest)

/-- A value inside fewer than `depth` brackets and braces. -/
def value : Nat → Reader Value
  | 0, _ => none
  | depth + 1, cs =>
    match cs with
    | '[' :: rest =>
      if depth = 0 then none
      else (arrayItems (value depth) (rest.length + 1) rest).map fun (items, rest) =>
        (.array items, rest)
    | '\x7b' :: rest => if depth = 0 then none else inlineTable (value depth) rest
    | 't' :: 'r' :: 'u' :: 'e' :: rest => some (.boolean true, rest)
    | 'f' :: 'a' :: 'l' :: 's' :: 'e' :: rest => some (.boolean false, rest)
    | _ => match string cs with
      | some (text, rest) => some (.string text, rest)
      | none => numeric cs

/-- The document so far and the path of the open table. -/
structure Draft where
  root : Table := {}
  path : List String := []

/-- Read one line, or the lines that a value on it spans. -/
def line (draft : Draft) (cs : List Char) : Option (Draft × List Char) :=
  match skipSpace cs with
  | '[' :: '[' :: rest => do
    let (keys, rest) ← key rest
    let rest ← mark ']' (← mark ']' rest)
    return (⟨← draft.root.openElement keys, keys⟩, ← endLine rest)
  | '[' :: rest => do
    let (keys, rest) ← key rest
    let rest ← mark ']' rest
    return (⟨← draft.root.openTable keys, keys⟩, ← endLine rest)
  | cs =>
    match endLine cs with
    | some rest => some (draft, rest)
    | none => do
      let ((keys, value), rest) ← pair (value nestingLimit) cs
      let root ← draft.root.descend false (Table.insert keys value) draft.path
      return ({ draft with root }, ← endLine rest)

def lines : Nat → Draft → List Char → Option Draft
  | _, draft, [] => some draft
  | 0, _, _ :: _ => none
  | fuel + 1, draft, cs => do
    let (draft, rest) ← line draft cs
    lines fuel draft rest

/-- Line ends as single line feeds. -/
def unifyLineEnds : List Char → List Char
  | '\r' :: '\n' :: rest => '\n' :: unifyLineEnds rest
  | c :: rest => c :: unifyLineEnds rest
  | [] => []

/-- A byte order mark in front is not part of the text. -/
def dropMark : List Char → List Char
  | c :: rest => if c.toNat = 0xfeff then rest else c :: rest
  | [] => []

/-- The top-level entries of a document, or nothing if the text is not one. -/
def read (text : String) : Option (List (String × Value)) := do
  let cs := unifyLineEnds (dropMark text.toList)
  let draft ← lines cs.length {} cs
  return entryValues draft.root.entries

end CopyPatch.Toml
