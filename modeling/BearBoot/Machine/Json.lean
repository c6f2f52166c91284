import Mathlib.Algebra.Group.Nat.Defs
import Mathlib.Data.List.Basic
import Mathlib.Data.Nat.Basic

/-!
# The JSON a script writes

A Python object is a `Value` as far as a script that keeps numbers and
names in JSON looks at it. `dumps` is the text of an object with members
in a given order, for either choice of separators: `compact` with none but
the punctuation, `spaced` with a blank behind it. There is no decoder
here. What a decoder must do for such a script is give back what was
written, and whether one can is a question about the text alone: it has
to determine the members.

`dumpsMembers_split` answers it one member at a time. A value whose text
holds no comma ends at the first comma, so two texts that begin with the
same key agree in the first value and in the rest. Numbers and plain
strings are such values (`plain_int`, `plain_str`).
-/

set_option autoImplicit false

namespace Machine

variable {n : Nat}

namespace Json

/-- A Python object. A float is the integer it equals, if it equals one. -/
inductive Value where
  | none
  | bool (b : Bool)
  | int (i : Int)
  | float (whole : Option Int)
  | str (s : String)
  | other
  deriving DecidableEq, Repr

/-- `value == n`. -/
def Value.eqInt (v : Value) (n : Int) : Bool :=
  match v with
  | .bool b => (if b then 1 else 0) == n
  | .int i => i == n
  | .float (some i) => i == n
  | _ => false

/-- An integer, and no bool, that fits 64 bits. -/
def Value.uint64? : Value → Option Nat
  | .int (.ofNat n) => if n < 2 ^ 64 then some n else Option.none
  | _ => Option.none

/-- The text of a value. The strings written here need no escape, and no
float, array or object is written. -/
def Value.dumps : Value → List Char
  | .none => "null".toList
  | .bool true => "true".toList
  | .bool false => "false".toList
  | .int (.ofNat n) => Nat.toDigits 10 n
  | .int (.negSucc n) => '-' :: Nat.toDigits 10 (n + 1)
  | .str s => '"' :: s.toList ++ ['"']
  | .float _ | .other => []

/-- What stands behind a comma and behind a colon. -/
structure Format where
  item : List Char
  key : List Char

def compact : Format := ⟨[], []⟩

def spaced : Format := ⟨[' '], [' ']⟩

def dumpsKey (f : Format) (key : String) : List Char := '"' :: key.toList ++ '"' :: ':' :: f.key

def dumpsMember (f : Format) (member : String × Value) : List Char :=
  dumpsKey f member.1 ++ member.2.dumps

def dumpsMembers (f : Format) : List (String × Value) → List Char
  | [] => []
  | [member] => dumpsMember f member
  | member :: members => dumpsMember f member ++ ',' :: (f.item ++ dumpsMembers f members)

/-- An object's text, on members in the order they are written. -/
def dumps (f : Format) (members : List (String × Value)) : List Char :=
  '\x7b' :: dumpsMembers f members ++ ['\x7d']

/-- What a decoder answers: an object, as its pairs, or a value that is
none. -/
inductive Document where
  | object (pairs : List (String × Value))
  | other

/-- The text in bytes. -/
def ascii (text : List Char) : List UInt8 := text.map fun c => UInt8.ofNat c.toNat

/-- A byte as two hexadecimal digits. -/
def hexByte (b : UInt8) : List Char :=
  [Nat.digitChar (b.toNat / 16), Nat.digitChar (b.toNat % 16)]

def hex (bytes : List UInt8) : String := String.ofList (bytes.flatMap hexByte)

/-! ## Lengths -/

theorem length_hex (bytes : List UInt8) : (hex bytes).toList.length = 2 * bytes.length := by
  rw [hex, String.toList_ofList]
  induction bytes with
  | nil => rfl
  | cons b bs ih =>
    rw [List.flatMap_cons, List.length_append, ih, List.length_cons]
    change 2 + 2 * bs.length = _
    omega

theorem length_int (h : n < 2 ^ 64) : (Value.int (n : Int)).dumps.length ≤ 20 := by
  change (Nat.toDigits 10 n).length ≤ 20
  rw [Nat.length_toDigits_le_iff (by decide) (by decide)]
  omega

theorem length_str (s : String) : (Value.str s).dumps.length = s.toList.length + 2 := by
  simp [Value.dumps]

/-! ## Characters and bytes -/

theorem ascii_append (a b : List Char) : ascii (a ++ b) = ascii a ++ ascii b := List.map_append

/-- The byte of a character below 256 gives the character back. -/
theorem ascii_inj {a b : List Char} (ha : ∀ c ∈ a, c.toNat < 256) (hb : ∀ c ∈ b, c.toNat < 256)
    (h : ascii a = ascii b) : a = b := by
  have hback : ∀ t : List Char, (∀ c ∈ t, c.toNat < 256) →
      (ascii t).map (fun x => Char.ofNat x.toNat) = t := by
    intro t ht
    rw [ascii, List.map_map]
    refine (List.map_congr_left fun c hc => ?_).trans (List.map_id t)
    have hsmall : (UInt8.ofNat c.toNat).toNat = c.toNat := by
      rw [UInt8.toNat_ofNat']
      exact Nat.mod_eq_of_lt (ht c hc)
    change Char.ofNat (UInt8.ofNat c.toNat).toNat = c
    rw [hsmall, Char.ofNat_toNat]
  rw [← hback a ha, ← hback b hb, h]

/-- A text of characters below 256 without a comma is bytes without one. -/
theorem comma_notMem_ascii {t : List Char} (ht : ∀ c ∈ t, c.toNat < 256 ∧ c ≠ ',') :
    (44 : UInt8) ∉ ascii t := by
  intro hmem
  obtain ⟨c, hc, heq⟩ := List.mem_map.mp hmem
  obtain ⟨hlt, hne⟩ := ht c hc
  have hnat := congrArg UInt8.toNat heq
  rw [UInt8.toNat_ofNat', Nat.mod_eq_of_lt hlt] at hnat
  exact hne (Char.toNat_inj.mp hnat)

theorem digit_lt {c : Char} (hc : c ∈ Nat.toDigits 10 n) : 48 ≤ c.toNat ∧ c.toNat ≤ 57 := by
  have hd := Nat.isDigit_of_mem_toDigits (by decide) (by decide) hc
  simp only [Char.isDigit, Bool.and_eq_true, decide_eq_true_eq, ge_iff_le] at hd
  exact hd

theorem hexDigit_mem (h : n < 16) : n.digitChar ∈ "0123456789abcdef".toList := by
  revert n
  decide

theorem mem_hex {bytes : List UInt8} {c : Char} (h : c ∈ (hex bytes).toList) :
    c ∈ "0123456789abcdef".toList := by
  rw [hex, String.toList_ofList] at h
  obtain ⟨b, _, hc⟩ := List.mem_flatMap.mp h
  have hb : b.toNat < 256 := b.toNat_lt
  simp only [hexByte, List.mem_cons, List.not_mem_nil, or_false] at hc
  rcases hc with rfl | rfl
  · exact hexDigit_mem (by omega)
  · exact hexDigit_mem (by omega)

/-! ## What a text determines -/

/-- A separator that occurs in neither front splits a list in one way. -/
theorem append_sep_inj {α : Type} {sep : α} {x x' y y' : List α} (hx : sep ∉ x) (hx' : sep ∉ x')
    (h : x ++ sep :: y = x' ++ sep :: y') : x = x' ∧ y = y' := by
  induction x generalizing x' with
  | nil =>
    cases x' with
    | nil => exact ⟨rfl, (List.cons.inj h).2⟩
    | cons b x' => exact absurd ((List.cons.inj h).1 ▸ List.mem_cons_self) hx'
  | cons a x ih =>
    cases x' with
    | nil => exact absurd ((List.cons.inj h).1 ▸ List.mem_cons_self) hx
    | cons b x' =>
      obtain ⟨rfl, htail⟩ := List.cons.inj h
      obtain ⟨rfl, hy⟩ := ih (fun hm => hx (List.mem_cons_of_mem _ hm))
        (fun hm => hx' (List.mem_cons_of_mem _ hm)) htail
      exact ⟨rfl, hy⟩

/-- Two values whose texts hold no comma and tell them apart. -/
structure Plain (v v' : Value) : Prop where
  left : (44 : UInt8) ∉ ascii v.dumps
  right : (44 : UInt8) ∉ ascii v'.dumps
  inj : ascii v.dumps = ascii v'.dumps → v = v'

theorem plain_int (n n' : Nat) : Plain (.int n) (.int n') := by
  have hchars : ∀ n : Nat, ∀ c ∈ (Value.int n).dumps, c.toNat < 256 ∧ c ≠ ',' := by
    intro n c hc
    have hd := digit_lt hc
    refine ⟨by omega, ?_⟩
    rintro rfl
    exact absurd hd.1 (by decide)
  refine ⟨comma_notMem_ascii (hchars n), comma_notMem_ascii (hchars n'), fun h => ?_⟩
  have hdig : Nat.toDigits 10 n = Nat.toDigits 10 n' :=
    ascii_inj (fun c hc => (hchars n c hc).1) (fun c hc => (hchars n' c hc).1) h
  have hn := Nat.ofDigitChars_toDigits (b := 10) (n := n) (by decide) (by decide)
  have hn' := Nat.ofDigitChars_toDigits (b := 10) (n := n') (by decide) (by decide)
  rw [← hn, ← hn', hdig]

/-- Plain characters, tested one by one. -/
theorem plain_chars {s : String} (h : s.toList.all (fun c => c.toNat < 256 && c != ',') = true) :
    ∀ c ∈ s.toList, c.toNat < 256 ∧ c ≠ ',' := by
  intro c hc
  simpa using List.all_eq_true.mp h c hc

theorem plain_str {s s' : String} (hs : ∀ c ∈ s.toList, c.toNat < 256 ∧ c ≠ ',')
    (hs' : ∀ c ∈ s'.toList, c.toNat < 256 ∧ c ≠ ',') : Plain (.str s) (.str s') := by
  have hchars : ∀ s : String, (∀ c ∈ s.toList, c.toNat < 256 ∧ c ≠ ',') →
      ∀ c ∈ (Value.str s).dumps, c.toNat < 256 ∧ c ≠ ',' := by
    intro s hs c hc
    simp only [Value.dumps, List.cons_append, List.mem_cons, List.mem_append, List.not_mem_nil,
      or_false] at hc
    rcases hc with rfl | hmem | rfl
    · decide
    · exact hs c hmem
    · decide
  refine ⟨comma_notMem_ascii (hchars s hs), comma_notMem_ascii (hchars s' hs'), fun h => ?_⟩
  have htext := ascii_inj (fun c hc => (hchars s hs c hc).1) (fun c hc => (hchars s' hs' c hc).1) h
  have hlist := List.append_cancel_right (List.cons.inj htext).2
  rw [String.toList_inj.mp hlist]

/-- Equal objects have equal members, in front of what closes them. -/
theorem dumps_members {f : Format} {members members' : List (String × Value)} {tail : List Char}
    (h : ascii (dumps f members ++ tail) = ascii (dumps f members' ++ tail)) :
    ascii (dumpsMembers f members) ++ ascii ('\x7d' :: tail) =
      ascii (dumpsMembers f members') ++ ascii ('\x7d' :: tail) := by
  have hopen : ∀ ms, ascii (dumps f ms ++ tail) =
      123 :: (ascii (dumpsMembers f ms) ++ ascii ('\x7d' :: tail)) := by
    intro ms
    rw [← ascii_append, dumps, List.append_assoc, List.singleton_append]
    rfl
  rw [hopen, hopen] at h
  exact (List.cons.inj h).2

theorem ascii_members (f : Format) (member next : String × Value) (rest : List (String × Value)) :
    ascii (dumpsMembers f (member :: next :: rest)) =
      ascii (dumpsMember f member) ++ 44 :: (ascii f.item ++ ascii (dumpsMembers f (next :: rest))) := by
  rw [dumpsMembers, ascii_append, ← ascii_append f.item]
  · rfl
  · simp

/-- The first members of two texts with one key agree, and so do the
rests. -/
theorem dumpsMembers_split {f : Format} {key : String} {v v' : Value}
    {next next' : String × Value} {rest rest' : List (String × Value)} {tail : List UInt8}
    (hplain : Plain v v') (hkey : (44 : UInt8) ∉ ascii (dumpsKey f key))
    (h : ascii (dumpsMembers f ((key, v) :: next :: rest)) ++ tail =
      ascii (dumpsMembers f ((key, v') :: next' :: rest')) ++ tail) :
    v = v' ∧ ascii (dumpsMembers f (next :: rest)) ++ tail =
      ascii (dumpsMembers f (next' :: rest')) ++ tail := by
  have hno : ∀ {v : Value}, (44 : UInt8) ∉ ascii v.dumps →
      (44 : UInt8) ∉ ascii (dumpsMember f (key, v)) := by
    intro v hv hmem
    rw [dumpsMember, ascii_append] at hmem
    rcases List.mem_append.mp hmem with hk | hv'
    · exact hkey hk
    · exact hv hv'
  rw [ascii_members, ascii_members, List.append_assoc, List.append_assoc, List.cons_append,
    List.cons_append, List.append_assoc, List.append_assoc] at h
  obtain ⟨hfirst, hrest⟩ := append_sep_inj (hno hplain.left) (hno hplain.right) h
  rw [dumpsMember, dumpsMember, ascii_append, ascii_append] at hfirst
  exact ⟨hplain.inj (List.append_cancel_left hfirst), List.append_cancel_left hrest⟩

end Json

end Machine
