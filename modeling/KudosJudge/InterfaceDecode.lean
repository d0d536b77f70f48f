import KudosJudge.Library.CText

set_option autoImplicit false

/-!
`jug_int_decode` of `interface.c`, over the memory its pointer moves in. The
body is

    type '\n' feed '\n' feed '\n' size '\n' source

where a feed is a type line and then a size line with as many bytes, or a
reference line. The decoder never compares its pointer with the end of the
body: it stops at the terminator only where `atoi` or `strlen` does.
-/
namespace KudosJudge.InterfaceDecode
open CText

/-- How a piece of the decoder ends: by reading outside the mapped memory, by
returning an error code, or with a value. -/
inductive Parse (α : Type) where
  | fault
  | ret (code : ℤ)
  | ok (value : α)
deriving DecidableEq, Repr

namespace Parse

def bind {α β : Type} : Parse α → (α → Parse β) → Parse β
  | fault, _ => fault
  | ret code, _ => ret code
  | ok value, f => f value

instance : Monad Parse where
  pure := ok
  bind := bind

def read {α : Type} : Option α → Parse α
  | none => fault
  | some value => ok value

@[simp] theorem fault_bind {α β : Type} (f : α → Parse β) : (fault >>= f) = fault := rfl
@[simp] theorem ret_bind {α β : Type} (c : ℤ) (f : α → Parse β) : (ret c >>= f) = ret c := rfl
@[simp] theorem ok_bind {α β : Type} (a : α) (f : α → Parse β) : (ok a >>= f) = f a := rfl
@[simp] theorem pure_eq {α : Type} (a : α) : (pure a : Parse α) = ok a := rfl
@[simp] theorem read_none {α : Type} : read (none : Option α) = fault := rfl
@[simp] theorem read_some {α : Type} (a : α) : read (some a) = ok a := rfl

theorem bind_eq_ok {α β : Type} {x : Parse α} {f : α → Parse β} {b : β} (h : (x >>= f) = ok b) :
    ∃ a, x = ok a ∧ f a = ok b := by
  cases x with
  | fault => cases h
  | ret c => cases h
  | ok a => exact ⟨a, rfl, h⟩

theorem read_eq_ok {α : Type} {x : Option α} {a : α} (h : read x = ok a) : x = some a := by
  cases x with
  | none => cases h
  | some b => injection h with h; rw [h]

end Parse

structure Feed where
  type : ℤ
  data : Option (List UInt8)
  reference : Option ℤ
deriving DecidableEq, Repr

/-- `int_request`, with `none` for a field that was not assigned. -/
structure IntRequest where
  type : ℤ
  input : Feed
  output : Feed
  sourcecode : Option (List UInt8)
deriving DecidableEq, Repr

def reqTypeJudge : ℤ := 0
def reqTypeSetfeed : ℤ := 1
def feedtypeData : ℤ := 0
def feedtypeReference : ℤ := 1

/-- A size line and its payload. The payload is stored, and the pointer left at
the byte behind it, which every caller skips as the separator without a look.
A negative size is above every length once it is a `size_t`. -/
def parsePayload (string : Memory) : Parse (List UInt8 × Memory) := do
  let size ← Parse.read (atoi string)
  let string ← Parse.read (skipLine string)
  let len ← Parse.read (strlen string)
  if len < toSizeT size then .ret (-2)
  else pure (string.take size.toNat, string.drop size.toNat)

/-- The input and the output part are parsed alike; the pointer is left at the
separator, which behind a reference is the end of its line. -/
def parseFeed (string : Memory) : Parse (Feed × Memory) := do
  let type ← Parse.read (atoi string)
  let string ← Parse.read (skipLine string)
  if type = feedtypeData then do
    let (data, string) ← parsePayload string
    pure (⟨type, some data, none⟩, string)
  else if type = feedtypeReference then do
    let reference ← Parse.read (atoi string)
    let string ← Parse.read (skipLine string)
    pure (⟨type, none, some reference⟩, newline :: string)
  else .ret (-3)

def parseTail (type : ℤ) (string : Memory) : Parse (Option (List UInt8)) :=
  if type = reqTypeJudge then do
    let (sourcecode, _) ← parsePayload string
    pure (some sourcecode)
  else if type = reqTypeSetfeed then do
    let len ← Parse.read (strlen string)
    if len > 0 then .ret (-4) else pure none
  else .ret (-3)

def decodeParts (string : Memory) : Parse (IntRequest × Memory × Memory) := do
  let type ← Parse.read (atoi string)
  let string ← Parse.read (skipLine string)
  let (input, sep₁) ← parseFeed string
  let (output, sep₂) ← parseFeed (sep₁.drop 1)
  let sourcecode ← parseTail type (sep₂.drop 1)
  pure (⟨type, input, output, sourcecode⟩, sep₁, sep₂)

def jugIntDecode (string : Memory) : Parse IntRequest := do
  let (request, _, _) ← decodeParts string
  pure request

end KudosJudge.InterfaceDecode
