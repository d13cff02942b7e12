import Mathlib.Data.Rat.Floor

/-!
# Byte strings and JsonCpp values

`std::string` is a string of bytes, not of characters: a frame off the network
need not be UTF-8. `Text` is that type, and a Lean string literal stands for its
bytes.

The second half is the part of JsonCpp a reader of documents uses. The library
checks its callers only by assertion: an accessor applied to a value of the
wrong kind ends the process, and a build without exceptions cannot recover. An
accessor is therefore a partial function here, with `none` for "the process is
gone", and `Indexable`, `StringLike` and `IntLike` are its preconditions.
-/

namespace ApprtcCli.Lib

/-- `std::string`: a string of bytes. -/
abbrev Text := List UInt8

/-- The bytes of a literal. -/
def Text.ofString (s : String) : Text := s.toUTF8.data.toList

instance : Coe String Text := ⟨Text.ofString⟩

/-- A `double`: a finite value, or an infinity left by a literal out of range. -/
inductive Double where
  | finite (q : ℚ)
  | infinite (negative : Bool)
  deriving DecidableEq, Repr

/-- `Json::Value`. `int` covers both integer kinds, `intValue` and `uintValue`. -/
inductive Json where
  | null
  | bool (b : Bool)
  | int (i : Int)
  | real (d : Double)
  | string (s : Text)
  | array (values : List Json)
  | object (members : List (Text × Json))

/-- What a program sees of JsonCpp itself. -/
structure JsonCpp where
  /-- `parseFromStream` under the default `CharReaderBuilder`; errors are a text. -/
  parse : Text → Except Text Json
  /-- `writeString` with empty indentation. -/
  write : Json → Text
  /-- `valueToString(double)`. -/
  realToString : Double → Text

/-- A reader that knows the documents of a table and rejects every other text. -/
def JsonCpp.ofTable (table : List (Text × Json)) : JsonCpp where
  parse text := match table.find? (fun d => d.1 == text) with
    | some d => .ok d.2
    | none => .error "* Line 1, Column 1"
  write _ := []
  realToString _ := []

theorem JsonCpp.ofTable_parse_head (text : Text) (document : Json) (table : List (Text × Json)) :
    (ofTable ((text, document) :: table)).parse text = .ok document := by
  simp [ofTable]

namespace Json

def isString : Json → Bool
  | string _ => true
  | _ => false

def isObject : Json → Bool
  | object _ => true
  | _ => false

/-- The member of an object, null when it is absent. -/
def lookup (members : List (Text × Json)) (key : Text) : Json :=
  match members.find? (fun m => m.1 == key) with
  | some m => m.2
  | none => null

/--
`operator[]` with a string key. On a null value it reads as an empty object; the
null member the non-const overload inserts is never told from an absent one.
-/
def get : Json → Text → Option Json
  | null, _ => some null
  | object members, key => some (lookup members key)
  | _, _ => none

/-- `asString`. -/
def asString (J : JsonCpp) : Json → Option Text
  | null => some []
  | string s => some s
  | bool true => some "true"
  | bool false => some "false"
  | int i => some (Text.ofString (toString i))
  | real d => some (J.realToString d)
  | array _ => none
  | object _ => none

/-- The range of a C++ `int`. -/
def InIntRange (q : ℚ) : Prop := -2147483648 ≤ q ∧ q ≤ 2147483647

instance (q : ℚ) : Decidable (InIntRange q) := inferInstanceAs (Decidable (_ ∧ _))

/-- `asInt`: a number is truncated, and must be in range. -/
def asInt : Json → Option Int
  | null => some 0
  | bool b => some (if b then 1 else 0)
  | int i => if InIntRange i then some i else none
  | real (.finite q) => if InIntRange q then some (Int.tdiv q.num q.den) else none
  | real (.infinite _) => none
  | string _ => none
  | array _ => none
  | object _ => none

/-! ## What the accessors demand -/

/-- The precondition of `operator[]`. -/
def Indexable : Json → Prop
  | null => True
  | object _ => True
  | _ => False

/-- The precondition of `asString`. -/
def StringLike : Json → Prop
  | array _ => False
  | object _ => False
  | _ => True

/-- The precondition of `asInt`. -/
def IntLike : Json → Prop
  | null => True
  | bool _ => True
  | int i => InIntRange i
  | real (.finite q) => InIntRange q
  | _ => False

/-- The member under a key, as every indexable value shows it. -/
def member : Json → Text → Json
  | object members, key => lookup members key
  | _, _ => null

theorem get_eq_some_iff {v m : Json} {key : Text} :
    v.get key = some m ↔ v.Indexable ∧ m = v.member key := by
  cases v <;> simp [get, Indexable, member, eq_comm]

theorem get_of_indexable {v : Json} (h : v.Indexable) (key : Text) :
    v.get key = some (v.member key) :=
  get_eq_some_iff.mpr ⟨h, rfl⟩

theorem asString_isSome_iff {J : JsonCpp} {v : Json} :
    (v.asString J).isSome ↔ v.StringLike := by
  cases v with
  | bool b => cases b <;> simp [asString, StringLike]
  | _ => simp [asString, StringLike]

theorem asInt_isSome_iff {v : Json} : v.asInt.isSome ↔ v.IntLike := by
  cases v with
  | int i => by_cases h : InIntRange i <;> simp [asInt, IntLike, h]
  | real d =>
      cases d with
      | finite q => by_cases h : InIntRange q <;> simp [asInt, IntLike, h]
      | infinite n => simp [asInt, IntLike]
  | _ => simp [asInt, IntLike]

theorem asString_of_stringLike {J : JsonCpp} {v : Json} (h : v.StringLike) :
    ∃ s, v.asString J = some s :=
  Option.isSome_iff_exists.mp (asString_isSome_iff.mpr h)

theorem stringLike_of_isString {v : Json} (h : v.isString = true) : v.StringLike := by
  cases v <;> simp [isString, StringLike] at h ⊢

end Json

end ApprtcCli.Lib
