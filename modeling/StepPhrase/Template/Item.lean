import StepPhrase.Text

/-!
# Items of a definition

The text of a definition is a sequence of items: characters that stand for themselves, characters
behind a backslash, and slots in braces. `Item.source` writes an item; `readItems` takes a text
apart again. It reads from the left and stops at the first brace that opens no slot, so what it
returns, written out and put in front of what stopped it, is always the text it was given.
-/

namespace StepPhrase.Template

/-- One unit of a definition as written. Every character of the text belongs to exactly one item, so
offsets can be counted item by item. -/
inductive Item where
  /-- A character other than a backslash or an opening brace. -/
  | plain (c : Char)
  /-- A backslash and the character that it makes literal. -/
  | escaped (c : Char)
  /-- A backslash at the very end. -/
  | backslash
  /-- A slot: one or more characters in braces, none of them a closing brace. -/
  | slot (inside : Text)
  deriving DecidableEq, Repr

namespace Item

/-- An item as it stands in the definition. -/
def source : Item → Text
  | .plain c => [c]
  | .escaped c => ['\\', c]
  | .backslash => ['\\']
  | .slot inside => '{' :: (inside ++ ['}'])

/-- The number of bytes that an item takes up in the definition. -/
def byteLength (i : Item) : Nat := i.source.byteLength

end Item

/-- What is wrong with an opening brace. The two are reported in different words. -/
inductive Fault where
  /-- A closing brace follows at once. -/
  | empty
  /-- No closing brace follows; `rest` is the text from the brace on. -/
  | unclosed (rest : Text)
  deriving DecidableEq, Repr

/-- Where a reader of items stands. -/
inductive Reading where
  /-- Between items. -/
  | between
  /-- Behind a backslash. -/
  | escape
  /-- Behind an opening brace. -/
  | opened
  /-- In a slot, with the characters read so far, last first. -/
  | inside (read : Text)

/-- Reads on, with the items found so far last first. Each character is looked at once; the state
tells what it belongs to. -/
def readFrom : Reading → List Item → Text → List Item × Option Fault
  | .between, done, [] => (done.reverse, none)
  | .escape, done, [] => ((.backslash :: done).reverse, none)
  | .opened, done, [] => (done.reverse, some (.unclosed ['{']))
  | .inside read, done, [] => (done.reverse, some (.unclosed ('{' :: read.reverse)))
  | .between, done, c :: t =>
    if c = '\\' then readFrom .escape done t
    else if c = '{' then readFrom .opened done t
    else readFrom .between (.plain c :: done) t
  | .escape, done, c :: t => readFrom .between (.escaped c :: done) t
  | .opened, done, c :: t =>
    if c = '}' then (done.reverse, some .empty) else readFrom (.inside [c]) done t
  | .inside read, done, c :: t =>
    if c = '}' then readFrom .between (.slot read.reverse :: done) t
    else readFrom (.inside (c :: read)) done t

/-- The items of a text up to the first brace that opens no slot, and what is wrong with it. -/
def readItems (t : Text) : List Item × Option Fault := readFrom .between [] t

end StepPhrase.Template
