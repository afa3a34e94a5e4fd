/-
  Message templates. A percent sign starts a directive: flags, a width, a precision
  and a letter that says how the next value is written. A name in parentheses takes
  the value from an object instead. Every value has to be used.
-/
import ConsoleSweep.Json.Number

namespace ConsoleSweep.Text.Template

/-- The values for a template: a row, used one after the other, or a single one. -/
inductive Values where
  | row (items : List Json)
  | one (v : Json)

/-- A character of a message. One half of a pair of 16-bit units may stand alone. -/
inductive Mark where
  | char (c : Char)
  | half (unit : Nat)
  deriving DecidableEq, Repr

/-- The mark with a code point. -/
def Mark.ofNat (n : Nat) : Mark :=
  if 0xD800 ≤ n && n < 0xE000 then .half n else .char (Char.ofNat n)

/-- A text as marks. -/
def marks (text : List Char) : List Mark :=
  text.map .char

/-- The character that is shown for a mark; half a pair cannot be shown. -/
def Mark.shown : Mark → Char
  | .char c => c
  | .half _ => '\ufffd'

/-- What a directive says besides its letter. -/
structure Directive where
  left : Bool := false
  plus : Bool := false
  blank : Bool := false
  alternate : Bool := false
  zero : Bool := false
  width : Nat := 0
  precision : Option Nat := none

/-- The values still to be used, and what names refer to: an object, or an array, which has no
names. -/
structure Supply where
  queue : List Json
  names : Option (List (String × Json))
  isObject : Bool := true

/-- The supply that a template starts with. -/
def Supply.of : Values → Supply
  | .row items => { queue := items, names := none }
  | .one (.obj fields) => { queue := [.obj fields], names := some fields }
  | .one (.arr items) => { queue := [.arr items], names := some [], isObject := false }
  | .one v => { queue := [v], names := none }

/-- The next value. -/
def Supply.next (s : Supply) : Except Fault (Json × Supply) :=
  match s.queue with
  | v :: rest => .ok (v, { s with queue := rest })
  | [] => .error .badType

/-- Fills a text up to the width of the directive. -/
def Directive.pad {α : Type} (d : Directive) (blank : α) (text : List α) : List α :=
  let fill := List.replicate (d.width - text.length) blank
  if d.left then text ++ fill else fill ++ text

/-- A number between its sign and its digits, filled up to the width. -/
def Directive.number (d : Directive) (negative : Bool) (base digits : List Char) : List Char :=
  let sign := if negative then ['-'] else if d.plus then ['+'] else if d.blank then [' '] else []
  let lead := sign ++ base
  if d.zero && !d.left then
    lead ++ List.replicate (d.width - (lead.length + digits.length)) '0' ++ digits
  else d.pad ' ' (lead ++ digits)

/-- The largest precision of a whole number. -/
def wholeLimit : Nat := 2147483644

/-- A whole number in a base. -/
def Directive.whole (d : Directive) (radix : Nat) (base : List Char) (n : Int) :
    Except Fault (List Char) :=
  let least := d.precision.getD 0
  if wholeLimit < least then .error .tooLarge
  else
    let digits := Nat.toDigits radix n.natAbs
    let digits := List.replicate (least - digits.length) '0' ++ digits
    .ok (d.number (n < 0) (if d.alternate then base else []) digits)

/-- The exponent of a number in scientific notation. -/
def exponentText (letter : Char) (e : Int) : List Char :=
  letter :: (if e < 0 then '-' else '+') :: (padLeft 2 '0' (ofNat e.natAbs)).toList

/-- The digits with a point behind the first `n`. -/
def pointed (alternate : Bool) (n : Nat) (digits : List Char) : List Char :=
  if digits.length ≤ n then digits ++ (if alternate then ['.'] else [])
  else digits.take n ++ '.' :: digits.drop n

/-- More places than any floating-point number has that are not zero. -/
def placesEnough : Nat := 1100

/-- The first digits of a number, one of them before the point, and its exponent. -/
def leadingDigits (places m : Nat) (e : Int) : List Char × Int :=
  let exact := min places placesEnough
  let (c, k) := Decimal.significant exact m e
  ((padLeft (exact + 1) '0' (ofNat c)).toList ++ List.replicate (places - exact) '0', k)

/-- The digits of a number with a fixed number of places. -/
def fixedDigits (places m : Nat) (e : Int) : List Char :=
  let exact := min places placesEnough
  (padLeft (exact + 1) '0' (ofNat (Decimal.unitsOf exact m e))).toList ++
    List.replicate (places - exact) '0'

/-- The digits of a finite number without its sign, by the letter of the directive. -/
def floatDigits (letter : Char) (alternate : Bool) (places m : Nat) (e : Int) : List Char :=
  let dropZeros (ds : List Char) : List Char :=
    if alternate then ds else (ds.reverse.dropWhile (· = '0')).reverse
  match letter with
  | 'e' =>
    let (ds, k) := leadingDigits places m e
    pointed alternate 1 ds ++ exponentText 'e' k
  | 'g' =>
    let precision := if places = 0 then 1 else places
    let kept := if alternate then precision else min precision placesEnough
    let (ds, k) := leadingDigits (kept - 1) m e
    if k < -4 || (precision : Int) ≤ k then
      let kept := dropZeros ds
      pointed alternate 1 (if kept.isEmpty then ['0'] else kept) ++ exponentText 'e' k
    else if k < 0 then
      let kept := dropZeros (List.replicate (-k - 1).toNat '0' ++ ds)
      pointed alternate 1 ('0' :: kept)
    else
      let whole := ds.take (k.toNat + 1)
      pointed alternate whole.length (whole ++ dropZeros (ds.drop (k.toNat + 1)))
  | _ =>
    let ds := fixedDigits places m e
    pointed alternate (ds.length - places) ds

/-- A floating-point number; `upper` writes its letters as capitals. -/
def Directive.float (d : Directive) (letter : Char) (upper : Bool) (x : Float) : List Char :=
  let cased (cs : List Char) := if upper then cs.map Char.toUpper else cs
  match Decimal.Binary.ofFloat x with
  | .nan => d.number false [] (cased "nan".toList)
  | .infinite negative => d.number negative [] (cased "inf".toList)
  | .finite negative m e =>
    d.number negative [] (cased (floatDigits letter d.alternate (d.precision.getD 6) m e))

/-- A quoted text in which every character beyond ASCII is an escape. -/
def asciiOnly (text : List Char) : List Char :=
  text.flatMap fun c =>
    if c.toNat < 0x80 then [c]
    else if c.toNat < 0x100 then '\\' :: 'x' :: hex 2 c.toNat
    else if c.toNat < 0x10000 then '\\' :: 'u' :: hex 4 c.toNat
    else '\\' :: 'U' :: hex 8 c.toNat

/-- A text cut to the precision and filled up to the width. -/
def Directive.text (d : Directive) (s : List Char) : List Char :=
  d.pad ' ' (match d.precision with
    | some n => s.take n
    | none => s)

/-- A value as a floating-point number. -/
def floatOf (v : Json) : Except Fault Float :=
  match v with
  | .real x => .ok x
  | .int n =>
    match Decimal.ofInt? n with
    | some x => .ok x
    | none => .error .tooLarge
  | .bool b => .ok (if b then 1.0 else 0.0)
  | _ => .error .badType

/-- A value as a whole number, for a letter that takes no other. -/
def wholeOf (v : Json) : Except Fault Int :=
  match v with
  | .int n => .ok n
  | .bool b => .ok (if b then 1 else 0)
  | _ => .error .badType

/-- A value as a single character. -/
def markOf (v : Json) : Except Fault Mark :=
  match v with
  | .str s =>
    match s.toList with
    | [c] => .ok (.char c)
    | _ => .error .badType
  | _ => do
    let n ← wholeOf v
    if 0 ≤ n && n < 0x110000 then return Mark.ofNat n.toNat else .error .tooLarge

/-- A value as text, by the letter of the directive. -/
def Directive.write (d : Directive) (letter : Char) (v : Json) : Except Fault (List Char) :=
  match letter with
  | 's' => .ok (d.text v.toText.toList)
  | 'r' => .ok (d.text v.shown.toList)
  | 'a' => .ok (d.text (asciiOnly v.shown.toList))
  | 'd' | 'i' | 'u' =>
    match v with
    | .real _ => do d.whole 10 [] (← Number.toInt v)
    | _ => do d.whole 10 [] (← wholeOf v)
  | 'o' => do d.whole 8 ['0', 'o'] (← wholeOf v)
  | 'x' => do d.whole 16 ['0', 'x'] (← wholeOf v)
  | 'X' => do return (← d.whole 16 ['0', 'x'] (← wholeOf v)).map Char.toUpper
  | 'e' => do return d.float 'e' false (← floatOf v)
  | 'E' => do return d.float 'e' true (← floatOf v)
  | 'f' => do return d.float 'f' false (← floatOf v)
  | 'F' => do return d.float 'f' true (← floatOf v)
  | 'g' => do return d.float 'g' false (← floatOf v)
  | 'G' => do return d.float 'g' true (← floatOf v)
  | _ => .error (.badValue "unsupported format character")

/-- A width that no memory is enough for. -/
def memoryLimit : Nat := 17179869184

/-- A value by the letter of the directive. -/
def Directive.convert (d : Directive) (letter : Char) (v : Json) : Except Fault (List Mark) := do
  let narrow := { d with width := if memoryLimit < d.width then 0 else d.width }
  let out ← if letter = 'c' then (markOf v).map fun m => narrow.pad (.char ' ') [m]
    else (narrow.write letter v).map marks
  if memoryLimit < d.width then .error .noMemory else return out

/-- Where a reader of a directive stands. -/
inductive Stage where
  | text
  /-- Behind the percent sign. -/
  | start
  /-- In a name, with the number of parentheses open. -/
  | name (depth : Nat) (read : List Char)
  | flags
  | width
  /-- Behind a width that is complete. -/
  | point
  /-- Behind the point. -/
  | precision
  /-- Among the digits of a precision. -/
  | places
  /-- Behind a precision that is complete. -/
  | size
  | letter
  deriving DecidableEq, Repr

/-- Looks a name up. -/
def Supply.named (s : Supply) (name : List Char) : Except Fault Supply :=
  match s.names with
  | none => .error .badType
  | some fields =>
    match fields.lookup (String.ofList name) with
    | some v => .ok { s with queue := [v] }
    | none => .error (if s.isObject then .noName else .badType)

/-- The largest width. -/
def widthLimit : Nat := 9223372036854775807

/-- The largest precision. -/
def precisionLimit : Nat := 2147483647

/-- A value that gives a width or a precision, up to a limit. -/
def Supply.measure (s : Supply) (limit : Nat) : Except Fault (Int × Supply) := do
  let (v, s) ← s.next
  let n ← wholeOf v
  if (limit : Int) < n || n < -(limit : Int) - 1 then .error .tooLarge else return (n, s)

/-- A width or a precision with one digit more, up to a limit. -/
def moreDigits (limit n : Nat) (c : Char) : Except Fault Nat :=
  let n := n * 10 + (c.toNat - 48)
  if limit < n then .error (.badValue "width or precision too big") else .ok n

/-- The end of a directive. -/
def finish (d : Directive) (s : Supply) (letter : Char) : Except Fault (List Mark × Supply) := do
  let (v, s) ← s.next
  return (← d.convert letter v, s)

/-- Expands a template from the given stage. -/
def expandFrom (stage : Stage) (d : Directive) (s : Supply) :
    List Char → Except Fault (List Mark)
  | [] =>
    if stage ≠ .text then .error (.badValue "incomplete format")
    else if s.queue ≠ [] ∧ s.names.isNone then .error .badType
    else .ok []
  | c :: rest =>
    let done : Except Fault (List Mark) := do
      if c = 'h' || c = 'l' || c = 'L' then expandFrom .letter d s rest
      else
        let (out, s) ← finish d s c
        return out ++ (← expandFrom .text {} s rest)
    let last : Except Fault (List Mark) := do
      let (out, s) ← finish d s c
      return out ++ (← expandFrom .text {} s rest)
    match stage with
    | .text =>
      if c = '%' then expandFrom .start {} s rest
      else (expandFrom .text {} s rest).map (.char c :: ·)
    | .name depth read =>
      if c = ')' then
        match depth with
        | 0 => do expandFrom .flags d (← s.named read.reverse) rest
        | depth + 1 => expandFrom (.name depth (c :: read)) d s rest
      else expandFrom (.name (if c = '(' then depth + 1 else depth) (c :: read)) d s rest
    | .start | .flags =>
      if c = '%' && stage = .start then (expandFrom .text {} s rest).map (.char '%' :: ·)
      else if c = '(' && stage = .start then
        if s.names.isNone then .error .badType else expandFrom (.name 0 []) d s rest
      else if c = '-' then expandFrom .flags { d with left := true } s rest
      else if c = '+' then expandFrom .flags { d with plus := true } s rest
      else if c = ' ' then expandFrom .flags { d with blank := true } s rest
      else if c = '#' then expandFrom .flags { d with alternate := true } s rest
      else if c = '0' then expandFrom .flags { d with zero := true } s rest
      else if c = '*' then do
        let (n, s) ← s.measure widthLimit
        expandFrom .point { d with left := d.left || n < 0, width := n.natAbs } s rest
      else if Json.isDigit c then expandFrom .width { d with width := c.toNat - 48 } s rest
      else if c = '.' then expandFrom .precision { d with precision := some 0 } s rest
      else done
    | .width =>
      if Json.isDigit c then do
        let width ← moreDigits widthLimit d.width c
        expandFrom .width { d with width } s rest
      else if c = '.' then expandFrom .precision { d with precision := some 0 } s rest
      else done
    | .point =>
      if c = '.' then expandFrom .precision { d with precision := some 0 } s rest else done
    | .precision =>
      if c = '*' then do
        let (n, s) ← s.measure precisionLimit
        expandFrom .size { d with precision := some n.toNat } s rest
      else if Json.isDigit c then
        expandFrom .places { d with precision := some (c.toNat - 48) } s rest
      else done
    | .places =>
      if Json.isDigit c then do
        let n ← moreDigits precisionLimit (d.precision.getD 0) c
        expandFrom .places { d with precision := some n } s rest
      else done
    | .size => done
    | .letter => last

/-- Puts values into a template. -/
def expand (template : List Char) (values : Values) : Except Fault (List Mark) :=
  expandFrom .text {} (Supply.of values) template

end ConsoleSweep.Text.Template
