/-
JSON values, `JSON.stringify` and `JSON.parse`.

A value is a tree.  The members of an object stand in the order they were written and
may repeat a name; `get` reads the last one, as an object built from that text would.
A number that is not finite is written as `null`, and a lone surrogate is written as an
escape, so what `parse` gives back is the value as it was printed (`printed`).

`parse` is a recursive descent with fuel, and every other call reads a unit.
-/
import Kaiban.Lib.Decimal

open JsString

/-- A JavaScript number. -/
inductive JsNumber where
  | nan
  | posInfinity
  | negInfinity
  | finite (d : Decimal)
  deriving DecidableEq

inductive Json where
  | null
  | bool (b : Bool)
  | num (n : JsNumber)
  | str (s : JsString)
  | arr (vs : List Json)
  | obj (ms : List (JsString × Json))

namespace Json

/-- The member of a name, the last one written. -/
def get (ms : List (JsString × Json)) (k : JsString) : Option Json :=
  (ms.reverse.find? fun m => m.1 = k).map Prod.snd

theorem get_append (ms ns : List (JsString × Json)) (k : JsString) :
    get (ms ++ ns) k = (get ns k).or (get ms k) := by
  unfold get
  rw [List.reverse_append, List.find?_append]
  cases List.find? (fun m => decide (m.1 = k)) ns.reverse <;> simp

theorem get_eq_none {ms : List (JsString × Json)} {k : JsString} :
    get ms k = none ↔ ∀ m ∈ ms, m.1 ≠ k := by
  simp [get]

/-! ### Writing -/

def hexUnit (d : ℕ) : CodeUnit :=
  if d < 10 then Fin.ofNat 0x10000 (0x30 + d) else Fin.ofNat 0x10000 (0x57 + d)

/-- `\uXXXX`. -/
def hexEscape (c : ℕ) : JsString :=
  [unit '\\', unit 'u', hexUnit (c / 0x1000 % 0x10), hexUnit (c / 0x100 % 0x10),
    hexUnit (c / 0x10 % 0x10), hexUnit (c % 0x10)]

/-- A code point inside a quoted string. -/
def escape (c : ℕ) : JsString :=
  if c = 0x22 then [unit '\\', unit '"']
  else if c = 0x5C then [unit '\\', unit '\\']
  else if c = 0x08 then [unit '\\', unit 'b']
  else if c = 0x0C then [unit '\\', unit 'f']
  else if c = 0x0A then [unit '\\', unit 'n']
  else if c = 0x0D then [unit '\\', unit 'r']
  else if c = 0x09 then [unit '\\', unit 't']
  else if c < 0x20 ∨ isSurrogate c = true then hexEscape c
  else pointUnits c

def quote (s : JsString) : JsString :=
  unit '"' :: ((codePoints s).flatMap escape ++ [unit '"'])

def numberJson : JsNumber → JsString
  | .finite d => NumberText.numberText d
  | _ => js "null"

mutual
def stringify : Json → JsString
  | .null => js "null"
  | .bool true => js "true"
  | .bool false => js "false"
  | .num n => numberJson n
  | .str s => quote s
  | .arr vs => unit '[' :: items vs
  | .obj ms => unit '{' :: members ms

/-- The elements of an array and its closing bracket. -/
def items : List Json → JsString
  | [] => [unit ']']
  | v :: vs => stringify v ++ moreItems vs

def moreItems : List Json → JsString
  | [] => [unit ']']
  | v :: vs => unit ',' :: (stringify v ++ moreItems vs)

/-- The members of an object and its closing brace. -/
def members : List (JsString × Json) → JsString
  | [] => [unit '}']
  | (k, v) :: ms => quote k ++ unit ':' :: (stringify v ++ moreMembers ms)

def moreMembers : List (JsString × Json) → JsString
  | [] => [unit '}']
  | (k, v) :: ms => unit ',' :: (quote k ++ unit ':' :: (stringify v ++ moreMembers ms))
end

def printedNumber : JsNumber → Json
  | .finite d => .num (.finite d)
  | _ => .null

mutual
/-- The value the text of `stringify` stands for. -/
def printed : Json → Json
  | .null => .null
  | .bool b => .bool b
  | .num n => printedNumber n
  | .str s => .str s
  | .arr vs => .arr (printedItems vs)
  | .obj ms => .obj (printedMembers ms)

def printedItems : List Json → List Json
  | [] => []
  | v :: vs => printed v :: printedItems vs

def printedMembers : List (JsString × Json) → List (JsString × Json)
  | [] => []
  | (k, v) :: ms => (k, printed v) :: printedMembers ms
end

/-! ### Reading -/

def isSpace (u : CodeUnit) : Bool :=
  u.val = 0x20 || u.val = 0x09 || u.val = 0x0A || u.val = 0x0D

def skipSpace : JsString → JsString
  | [] => []
  | u :: rest => if isSpace u then skipSpace rest else u :: rest

/-- What follows the unit `c`, after white space, if it comes next. -/
def expect (c : Char) (s : JsString) : Option JsString :=
  match skipSpace s with
  | [] => none
  | u :: rest => if u = unit c then some rest else none

/-- What follows the word `w`, if the text begins with it. -/
def readWord : JsString → JsString → Option JsString
  | [], s => some s
  | _ :: _, [] => none
  | u :: w, v :: s => if u = v then readWord w s else none

def hexValue (u : CodeUnit) : Option ℕ :=
  if 0x30 ≤ u.val ∧ u.val < 0x3A then some (u.val - 0x30)
  else if 0x61 ≤ u.val ∧ u.val < 0x67 then some (u.val - 0x57)
  else if 0x41 ≤ u.val ∧ u.val < 0x47 then some (u.val - 0x37)
  else none

/-- The unit four hexadecimal digits stand for. -/
def hexQuad (a b c d : CodeUnit) : Option CodeUnit :=
  match hexValue a, hexValue b, hexValue c, hexValue d with
  | some a, some b, some c, some d =>
      some (Fin.ofNat 0x10000 (a * 0x1000 + b * 0x100 + c * 0x10 + d))
  | _, _, _, _ => none

/-- The unit a one-letter escape stands for. -/
def unescape (u : CodeUnit) : Option CodeUnit :=
  if u = unit '"' ∨ u = unit '\\' ∨ u = unit '/' then some u
  else if u = unit 'b' then some 0x08
  else if u = unit 'f' then some 0x0C
  else if u = unit 'n' then some 0x0A
  else if u = unit 'r' then some 0x0D
  else if u = unit 't' then some 0x09
  else none

/-- One unit of a string with what follows it, or `none` at its end. -/
inductive StringStep where
  | close (rest : JsString)
  | unit (u : CodeUnit) (rest : JsString)

/-- The next unit of a quoted string. -/
def stringStep : JsString → Option StringStep
  | [] => none
  | u :: rest =>
      if u = unit '"' then some (.close rest)
      else if u = unit '\\' then
        match rest with
        | [] => none
        | e :: rest₁ =>
            if e = unit 'u' then
              match rest₁ with
              | a :: b :: c :: d :: rest₂ => (hexQuad a b c d).map fun x => .unit x rest₂
              | _ => none
            else (unescape e).map fun x => .unit x rest₁
      else if u.val < 0x20 then none
      else some (.unit u rest)

/-- The rest of a string after its opening quote, and what follows its closing one. -/
def readString : ℕ → JsString → Option (JsString × JsString)
  | 0, _ => none
  | n + 1, s =>
      match stringStep s with
      | none => none
      | some (.close r) => some ([], r)
      | some (.unit u r) => (readString n r).map fun p => (u :: p.1, p.2)

mutual
def readValue : ℕ → JsString → Option (Json × JsString)
  | 0, _ => none
  | _ + 1, [] => none
  | n + 1, u :: rest =>
      if u = unit '{' then
        match expect '}' rest with
        | some r => some (.obj [], r)
        | none => (readMembers n rest).map fun p => (.obj p.1, p.2)
      else if u = unit '[' then
        match expect ']' rest with
        | some r => some (.arr [], r)
        | none => (readItems n rest).map fun p => (.arr p.1, p.2)
      else if u = unit '"' then (readString n rest).map fun p => (.str p.1, p.2)
      else if u = unit 't' then (readWord (js "rue") rest).map fun r => (.bool true, r)
      else if u = unit 'f' then (readWord (js "alse") rest).map fun r => (.bool false, r)
      else if u = unit 'n' then (readWord (js "ull") rest).map fun r => (.null, r)
      else (NumberText.readNumber (u :: rest)).map fun p => (.num (.finite p.1), p.2)

/-- The elements of an array that is not empty, up to its closing bracket. -/
def readItems : ℕ → JsString → Option (List Json × JsString)
  | 0, _ => none
  | n + 1, s =>
      match readValue n (skipSpace s) with
      | none => none
      | some (v, r) =>
          match expect ',' r with
          | some r₁ => (readItems n r₁).map fun p => (v :: p.1, p.2)
          | none => (expect ']' r).map fun r₁ => ([v], r₁)

/-- The members of an object that is not empty, up to its closing brace. -/
def readMembers : ℕ → JsString → Option (List (JsString × Json) × JsString)
  | 0, _ => none
  | n + 1, s =>
      match (expect '"' s).bind (readString n) with
      | none => none
      | some (k, r) =>
          match (expect ':' r).bind fun r₁ => readValue n (skipSpace r₁) with
          | none => none
          | some (v, r₂) =>
              match expect ',' r₂ with
              | some r₃ => (readMembers n r₃).map fun p => ((k, v) :: p.1, p.2)
              | none => (expect '}' r₂).map fun r₃ => ([(k, v)], r₃)
end

/-- Fuel for a text: every other call reads a unit of it. -/
def fuelFor (s : JsString) : ℕ := 2 * s.length + 2

/-- `JSON.parse`, with `none` for the error it throws. -/
def parse (s : JsString) : Option Json :=
  match readValue (fuelFor s) (skipSpace s) with
  | none => none
  | some (v, r) => if skipSpace r = [] then some v else none

end Json
