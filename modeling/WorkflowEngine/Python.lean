import Mathlib.Algebra.GroupWithZero.Nat
import Mathlib.Algebra.Order.Ring.Unbundled.Rat

/-!
# Python values

The values the services pass around: JSON data as `json.loads` returns it, ordered
dictionaries, UUIDs and the exceptions that leave a call. A UUID is a free term: `uuid4`
draws are numbered and `uuid5` is its namespace with the formatted name, so two calls give
the same identifier exactly when their arguments are the same.
-/
namespace WorkflowEngine

/-- Microseconds since the epoch, the resolution of `datetime`. -/
abbrev Time := Int

/-- JSON as `json.loads` accepts it; `nonFinite` holds the literals NaN, Infinity, -Infinity. -/
inductive Json where
  | null
  | bool (value : Bool)
  | int (value : Int)
  | float (value : Rat)
  | nonFinite (literal : String)
  | str (value : String)
  | arr (items : List Json)
  | obj (members : List (String × Json))
  deriving Repr

namespace Json

mutual

def beq : Json → Json → Bool
  | null, null => true
  | bool a, bool b => a == b
  | int a, int b => decide (a = b)
  | float a, float b => decide (a = b)
  | nonFinite a, nonFinite b => decide (a = b)
  | str a, str b => decide (a = b)
  | arr xs, arr ys => beqItems xs ys
  | obj xs, obj ys => beqMembers xs ys
  | _, _ => false

def beqItems : List Json → List Json → Bool
  | [], [] => true
  | x :: xs, y :: ys => beq x y && beqItems xs ys
  | _, _ => false

def beqMembers : List (String × Json) → List (String × Json) → Bool
  | [], [] => true
  | (k, x) :: xs, (l, y) :: ys => decide (k = l) && beq x y && beqMembers xs ys
  | _, _ => false

end

mutual

theorem beq_iff : ∀ a b : Json, beq a b = true ↔ a = b
  | null, b => by cases b <;> simp [beq]
  | bool _, b => by cases b <;> simp [beq]
  | int _, b => by cases b <;> simp [beq]
  | float _, b => by cases b <;> simp [beq]
  | nonFinite _, b => by cases b <;> simp [beq]
  | str _, b => by cases b <;> simp [beq]
  | arr xs, b => by
    cases b with
    | arr ys => simp [beq, beqItems_iff xs ys]
    | _ => simp [beq]
  | obj xs, b => by
    cases b with
    | obj ys => simp [beq, beqMembers_iff xs ys]
    | _ => simp [beq]

theorem beqItems_iff : ∀ xs ys : List Json, beqItems xs ys = true ↔ xs = ys
  | [], ys => by cases ys <;> simp [beqItems]
  | x :: xs, ys => by
    cases ys with
    | nil => simp [beqItems]
    | cons y ys => simp [beqItems, beq_iff x y, beqItems_iff xs ys]

theorem beqMembers_iff : ∀ xs ys : List (String × Json), beqMembers xs ys = true ↔ xs = ys
  | [], ys => by cases ys <;> simp [beqMembers]
  | (k, x) :: xs, ys => by
    cases ys with
    | nil => simp [beqMembers]
    | cons y ys => obtain ⟨l, y⟩ := y; simp [beqMembers, beq_iff x y, beqMembers_iff xs ys, and_assoc]

end

instance : DecidableEq Json := fun a b => decidable_of_iff _ (beq_iff a b)

end Json

/-- A dict with string keys, in insertion order. -/
abbrev Dict (ν : Type) := List (String × ν)

namespace Dict

variable {ν : Type}

/-- `d.get(key)`. -/
def get? (d : Dict ν) (key : String) : Option ν := (d.find? fun m => decide (m.1 = key)).map (·.2)

/-- `key in d`. -/
def has (d : Dict ν) (key : String) : Bool := d.any fun m => decide (m.1 = key)

/-- `d[key] = value`: an existing key keeps its place. -/
def set (d : Dict ν) (key : String) (value : ν) : Dict ν :=
  if has d key then d.map (fun m => if m.1 = key then (key, value) else m) else d ++ [(key, value)]

end Dict

namespace Json

/-- A member put in its place among members that are sorted by key. -/
def insertMember (m : String × Json) : List (String × Json) → List (String × Json)
  | [] => [m]
  | n :: rest => if n.1 < m.1 then n :: insertMember m rest else m :: n :: rest

mutual

/-- The value with the keys of its objects sorted. -/
def sortKeys : Json → Json
  | .arr items => .arr (sortItems items)
  | .obj members => .obj (sortMembers members)
  | .null => .null
  | .bool b => .bool b
  | .int i => .int i
  | .float q => .float q
  | .nonFinite l => .nonFinite l
  | .str s => .str s

def sortItems : List Json → List Json
  | [] => []
  | x :: xs => sortKeys x :: sortItems xs

def sortMembers : List (String × Json) → List (String × Json)
  | [] => []
  | (key, x) :: xs => insertMember (key, sortKeys x) (sortMembers xs)

end

/-- `==` of two values: the members of a dict count in whatever order. -/
def Same (v v' : Json) : Prop := sortKeys v = sortKeys v'

/-- `==` of two dicts. -/
def SameDict (d d' : Dict Json) : Prop := sortMembers d = sortMembers d'

theorem Same.eq_null {v : Json} (h : Same v .null) : v = .null := by
  cases v with
  | null => rfl
  | _ => cases h

end Json

/-- `str.isspace` of one character. -/
def isSpace (c : Char) : Bool :=
  let n := c.toNat
  (9 ≤ n && n ≤ 13) || (28 ≤ n && n ≤ 32) || n == 133 || n == 160 || n == 5760 ||
    (8192 ≤ n && n ≤ 8202) || n == 8232 || n == 8233 || n == 8239 || n == 8287 || n == 12288

/-- `s.strip()` on the characters of `s`. -/
def strip (s : List Char) : List Char := ((s.dropWhile isSpace).reverse.dropWhile isSpace).reverse

/-- `not s.strip()`. -/
def blank (s : String) : Bool := s.toList.all isSpace

/-- The characters above ASCII that `str.isprintable` refuses: control, format and private-use
characters, separators. Which code points are unassigned depends on the Unicode of the interpreter;
they count as printable here. -/
def nonPrintable : List (Nat × Nat) :=
  [(128, 160), (173, 173), (1536, 1541), (1564, 1564), (1757, 1757), (1807, 1807), (2192, 2193), (2274, 2274),
    (5760, 5760), (6158, 6158), (8192, 8207), (8232, 8239), (8287, 8292), (8294, 8303), (12288, 12288),
    (57344, 63743), (65279, 65279), (65529, 65531), (69821, 69821), (69837, 69837), (78896, 78911),
    (113824, 113827), (119155, 119162), (917505, 917505), (917536, 917631), (983040, 1048573),
    (1048576, 1114109)]

def isPrintable (c : Char) : Bool :=
  let n := c.toNat
  if n < 128 then 32 ≤ n && n < 127 else !nonPrintable.any fun range => range.1 ≤ n && n ≤ range.2

def hexEscape (mark : Char) (width n : Nat) : List Char :=
  '\\' :: mark :: (Nat.toDigits 16 n).leftpad width '0'

/-- One character of `repr` between these quotes. -/
def escapeChar (quote c : Char) : List Char :=
  if c = quote ∨ c = '\\' then ['\\', c]
  else if c = '\t' then ['\\', 't']
  else if c = '\n' then ['\\', 'n']
  else if c = '\r' then ['\\', 'r']
  else if isPrintable c then [c]
  else if c.toNat < 256 then hexEscape 'x' 2 c.toNat
  else if c.toNat < 65536 then hexEscape 'u' 4 c.toNat
  else hexEscape 'U' 8 c.toNat

/-- `repr` of a string: in double quotes only if it holds single quotes and no double ones. -/
def repr (s : List Char) : List Char :=
  let quote := if '\'' ∈ s ∧ '"' ∉ s then '"' else '\''
  quote :: s.flatMap (escapeChar quote) ++ [quote]

/-- `uuid5` names all have the form `label ++ str(executionId) ++ ":" ++ suffix`. -/
inductive Uuid where
  | v4 (draw : Nat)
  | const (text : String)
  | v5 (namespaceId : Uuid) (label : String) (executionId : Uuid) (suffix : String)
  deriving DecidableEq, Repr

/-- A readable stand-in for `str(uuid)`, used in exception texts only. -/
def Uuid.str : Uuid → String
  | .v4 n => "uuid4-" ++ toString n
  | .const t => t
  | .v5 ns label e suffix => "uuid5-" ++ ns.str ++ "-" ++ label ++ e.str ++ ":" ++ suffix

/-- The exceptions that can leave a service call. `persistence` is a constraint violation or
another database error, wrapped by the unit of work; `redisError` a lost connection to Redis. -/
inductive PyError where
  | valueError (message : String)
  | keyError (key : String)
  | lookupError (message : String)
  | overflowError (message : String)
  | templateResolution (message : String)
  | executionNotFound (executionId : Uuid)
  | executionNotTriggerable (executionId : Uuid) (status : String)
  | persistence
  | redisError
  deriving DecidableEq, Repr

end WorkflowEngine
