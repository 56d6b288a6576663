import Erbie.Lib.Rlp

/-! Decoding RLP (`rlp/raw.go`, `rlp/decode.go`). `readKind` reads the kind
of the first value, the size of its header and the size of its payload, and
rejects what no encoder writes (a single byte below `0x80` behind a header, a
size that fits in the first byte written in the long form, a size with a
leading zero) and what does not fit in the input. `Split` cuts the value off.

`DecodeBytes` into a Go value runs the stream decoder of the value's type. It
accepts what `Split`, applied at every level of nesting, accepts, and of that
what the type admits: the decoders of Go types below take the item `Split`
found. Their errors are the stream's messages; the type and field path that
`decodeError` appends to a message are left out, and where the stream meets a
malformed input it can name another of the faults first (an element longer
than its list is `ErrElemTooLarge` there). -/

namespace Rlp

mutual

/-- Equality of items, decided along their structure. -/
def Item.decEq : (x y : Item) → Decidable (x = y)
  | .str a, .str b => if h : a = b then isTrue (h ▸ rfl) else isFalse fun e => h (Item.str.inj e)
  | .list xs, .list ys =>
    match Item.decEqList xs ys with
    | isTrue h => isTrue (h ▸ rfl)
    | isFalse h => isFalse fun e => h (Item.list.inj e)
  | .str _, .list _ => isFalse fun e => Item.noConfusion e
  | .list _, .str _ => isFalse fun e => Item.noConfusion e

def Item.decEqList : (xs ys : List Item) → Decidable (xs = ys)
  | [], [] => isTrue rfl
  | x :: xs, y :: ys =>
    match Item.decEq x y, Item.decEqList xs ys with
    | isTrue h, isTrue h' => isTrue (h ▸ h' ▸ rfl)
    | isFalse h, _ => isFalse fun e => h (List.cons.inj e).1
    | _, isFalse h' => isFalse fun e => h' (List.cons.inj e).2
  | [], _ :: _ => isFalse fun e => nomatch e
  | _ :: _, [] => isFalse fun e => nomatch e

end

instance : DecidableEq Item := Item.decEq

inductive Kind where
  | byte
  | string
  | list
deriving DecidableEq, Repr

def errUnexpectedEOF : String := "unexpected EOF"
def errCanonSize : String := "rlp: non-canonical size information"
def errValueTooLarge : String := "rlp: value size exceeds available input length"
def errMoreThanOneValue : String := "rlp: input contains more than one value"
def errEOF : String := "EOF"
def errTooDeep : String := "rlp: nesting deeper than the input"

/-- A big-endian number of bytes. -/
def ofBigEndian (bs : List UInt8) : Nat := bs.foldl (fun acc b => 256 * acc + b.toNat) 0

/-- `readSize(b, slen)`: a size written in `slen` big-endian bytes, at least
56 and without a leading zero. -/
def readSize (b : List UInt8) (slen : Nat) : Except String Nat :=
  if b.length < slen then .error errUnexpectedEOF
  else if ofBigEndian (b.take slen) < 56 ∨ b.head? = some 0 then .error errCanonSize
  else .ok (ofBigEndian (b.take slen))

/-- `readKind(buf)`: the kind of the first value, the size of its header and
the size of its payload. -/
def readKind : List UInt8 → Except String (Kind × Nat × Nat)
  | [] => .error errUnexpectedEOF
  | b :: rest =>
    let n := b.toNat
    let head : Except String (Kind × Nat × Nat) :=
      if n < 0x80 then .ok (.byte, 0, 1)
      else if n < 0xB8 then
        -- a single byte below `0x80` stands for itself, never behind a header
        if n - 0x80 = 1 ∧ rest.head?.any (· < 0x80) then .error errCanonSize else .ok (.string, 1, n - 0x80)
      else if n < 0xC0 then (readSize rest (n - 0xB7)).map fun cs => (.string, n - 0xB7 + 1, cs)
      else if n < 0xF8 then .ok (.list, 1, n - 0xC0)
      else (readSize rest (n - 0xF7)).map fun cs => (.list, n - 0xF7 + 1, cs)
    match head with
    | .error e => .error e
    | .ok (k, ts, cs) => if rest.length + 1 - ts < cs then .error errValueTooLarge else .ok (k, ts, cs)

/-- `Split(b)`: the kind and the payload of the first value, and the bytes after it. -/
def split (b : List UInt8) : Except String (Kind × List UInt8 × List UInt8) :=
  match readKind b with
  | .error e => .error e
  | .ok (k, ts, cs) => .ok (k, (b.drop ts).take cs, b.drop (ts + cs))

/-- The items whose encodings `b` concatenates, each nested at most `fuel` deep. -/
def decodeAll : Nat → List UInt8 → Except String (List Item)
  | _, [] => .ok []
  | 0, _ :: _ => .error errTooDeep
  | fuel + 1, b =>
    match split b with
    | .error e => .error e
    | .ok (k, content, rest) =>
      let item : Except String Item :=
        match k with
        | .list => (decodeAll fuel content).map Item.list
        | _ => .ok (.str content)
      match item with
      | .error e => .error e
      | .ok x => (decodeAll fuel rest).map (x :: ·)

/-- The first item of `b` and the bytes after it. -/
def decodeItem (b : List UInt8) : Except String (Item × List UInt8) :=
  match split b with
  | .error e => .error e
  | .ok (.list, content, rest) => (decodeAll content.length content).map fun xs => (.list xs, rest)
  | .ok (_, content, rest) => .ok (.str content, rest)

/-- `DecodeBytes(b, &v)` for an `interface{}` value: one item, and nothing
after it. Where the stream finds no first byte at the top level it reports
`io.EOF`. -/
def decodeBytes (b : List UInt8) : Except String Item :=
  match b with
  | [] => .error errEOF
  | _ :: _ =>
    match decodeItem b with
    | .error e => .error e
    | .ok (x, []) => .ok x
    | .ok (_, _ :: _) => .error errMoreThanOneValue

/-! ### Values of Go types -/

def errExpectedString : String := "rlp: expected input string or byte"
def errExpectedList : String := "rlp: expected input list"
def errCanonInt : String := "rlp: non-canonical integer format"
def errUintOverflow : String := "rlp: uint overflow"
def errTooFewElements : String := "too few elements"
def errTooManyElements : String := "input list has too many elements"
def errStringTooLong : String := "input string too long"
def errStringTooShort : String := "input string too short"

/-- `decodeByteSlice`: the bytes of a string. -/
def decodeByteSlice : Item → Except String (List UInt8)
  | .str bs => .ok bs
  | .list _ => .error errExpectedString

/-- `decodeByteArray` into a `[n]byte`: a string of exactly `n` bytes. -/
def decodeByteArray (n : Nat) : Item → Except String (List UInt8)
  | .str bs =>
    if n < bs.length then .error errStringTooLong
    else if bs.length < n then .error errStringTooShort
    else .ok bs
  | .list _ => .error errExpectedString

/-- `Stream.uint(maxbits)`: a string of at most `maxbits / 8` bytes without a
leading zero; a byte below `0x80` that stands for itself is exempt from the
size check, and is refused when it is zero. -/
def decodeUint (maxbits : Nat) : Item → Except String Nat
  | .str [b] =>
    if b < 0x80 then (if b = 0 then .error errCanonInt else .ok b.toNat)
    else if maxbits / 8 < 1 then .error errUintOverflow
    else .ok b.toNat
  | .str bs =>
    if maxbits / 8 < bs.length then .error errUintOverflow
    else if bs.head? = some 0 then .error errCanonInt
    else .ok (ofBigEndian bs)
  | .list _ => .error errExpectedString

/-- `Stream.Bool`. -/
def decodeBool (i : Item) : Except String Bool :=
  match decodeUint 8 i with
  | .error e => .error e
  | .ok 0 => .ok false
  | .ok 1 => .ok true
  | .ok n => .error ("rlp: invalid boolean value: " ++ toString n)

/-- `writeBool`. -/
def writeBool (b : Bool) : Item := if b then .str [0x01] else .str []

/-- `decodeListSlice`: a list, each element by `dec`. -/
def decodeListSlice {α : Type} (dec : Item → Except String α) : Item → Except String (List α)
  | .list xs => xs.mapM dec
  | .str _ => .error errExpectedList

/-- One field of a struct, as `makeStructDecoder` reads it: the next element
of the list, or `too few elements` when there is none. -/
def decodeField {α : Type} (dec : Item → Except String α) : List Item → Except String (α × List Item)
  | [] => .error errTooFewElements
  | x :: xs => (dec x).map fun a => (a, xs)

/-- `ListEnd` after the last field of a struct. -/
def listEnd : List Item → Except String Unit
  | [] => .ok ()
  | _ :: _ => .error errTooManyElements

/-- `decodeBigInt`: a string without a leading zero, of any length. -/
def decodeBigInt : Item → Except String Nat
  | .str bs => if bs.head? = some 0 then .error errCanonInt else .ok (ofBigEndian bs)
  | .list _ => .error errExpectedString

/-- `Kind.String`. -/
def Kind.toString : Kind → String
  | .byte => "Byte"
  | .string => "String"
  | .list => "List"

def errWrongEmptyKind (got want : Kind) : String :=
  "wrong kind of empty value (got " ++ got.toString ++ ", want " ++ want.toString ++ ")"

/-- `makeNilPtrDecoder` for a pointer tagged `rlp:"nil"`: the empty value of
the kind `nilKind` is `nil`, the empty value of the other kind is refused, and
any other value is decoded by `dec`. -/
def decodeNilPtr {α : Type} (nilKind : Kind) (dec : Item → Except String α) :
    Item → Except String (Option α)
  | .str [] => if nilKind = .string then .ok none else .error (errWrongEmptyKind .string nilKind)
  | .list [] => if nilKind = .list then .ok none else .error (errWrongEmptyKind .list nilKind)
  | i => (dec i).map some

/-- `makePtrWriter` for a pointer tagged `rlp:"nil"`: `nil` is the empty value
of its kind. -/
def writeNilPtr {α : Type} (nilKind : Kind) (enc : α → Item) : Option α → Item
  | none => if nilKind = .list then .list [] else .str []
  | some a => enc a

/-- A pointer to a struct, whose `nil` is the empty list. -/
def decodeNilList {α : Type} (dec : Item → Except String α) : Item → Except String (Option α) :=
  decodeNilPtr .list dec

/-- A pointer to a byte array, whose `nil` is the empty string. -/
def decodeNilString {α : Type} (dec : Item → Except String α) : Item → Except String (Option α) :=
  decodeNilPtr .string dec

end Rlp
