import BearBoot.Machine.Mem

/-!
# Packed records

A packed record is the concatenation of its fields, a number being its
little-endian bytes. `bytes_field` and `getLE_field` read a field back at
the offset the fields before it add up to, whatever follows the record.

`be` and `ofBe` are the same numbers with the big end first.

Records without separators between them can be told apart when none of them
is empty and each says by its own beginning how long it is: then the
concatenation determines the records (`flatten_inj`).

`zeroed` is the byte string with a range of it zeroed, which is what is
signed or summed when a record carries its own tag. It is stated byte by
byte; `zeroed_eq` is the form programs build, from the two pieces around
the range.
-/

set_option autoImplicit false

namespace Machine

variable {n w : Nat} {bs : List UInt8}

/-- The `w` little-endian bytes of `v`. -/
def le (v w : Nat) : List UInt8 := (Mem.zeros.putLE 0 v w).bytes 0 w

@[simp] theorem length_le (v w : Nat) : (le v w).length = w := Mem.bytes_length _ _ _

theorem ofList_le (v w : Nat) {i : Nat} (hi : i < w) :
    Mem.ofList (le v w) i = Mem.zeros.putLE 0 v w i := by
  rw [le, Mem.ofList_bytes hi, Nat.zero_add]

/-- A number's bytes are the bytes it was read from. -/
theorem le_getLE (m : Mem) (p w : Nat) : le (m.getLE p w) w = m.bytes p w :=
  Mem.bytes_congr (Mem.getLE_inj (Mem.getLE_putLE (Mem.getLE_lt m p w)))

theorem bytes_add (m : Mem) (p a b : Nat) : m.bytes p (a + b) = m.bytes p a ++ m.bytes (p + a) b := by
  simp [Mem.bytes, List.range_add, Nat.add_assoc]

/-- Two memories with the same bytes hold the same bytes in every part, and
the same numbers. -/
theorem bytes_part {m m' : Mem} {p p' : Nat} (h : m.bytes p n = m'.bytes p' n) {a k : Nat}
    (hk : a + k ≤ n) : m.bytes (p + a) k = m'.bytes (p' + a) k := by
  refine Mem.bytes_congr fun i hi => ?_
  rw [Nat.add_assoc, Nat.add_assoc]
  exact Mem.bytes_eq_iff.mp h (a + i) (by omega)

theorem getLE_part {m m' : Mem} {p p' : Nat} (h : m.bytes p n = m'.bytes p' n) {a k : Nat}
    (hk : a + k ≤ n) : m.getLE (p + a) k = m'.getLE (p' + a) k :=
  Mem.getLE_congr (Mem.bytes_eq_iff.mp (bytes_part h hk))

section Fields

variable {o n w : Nat}

/-- A field's bytes stand at its offset. -/
theorem ofList_field (front : List (List UInt8)) (field : List UInt8) (back : List (List UInt8))
    (tail : List UInt8) (ho : front.flatten.length = o) {i : Nat} (hi : i < field.length) :
    Mem.ofList ((front ++ field :: back).flatten ++ tail) (o + i) = Mem.ofList field i := by
  have hsplit : (front ++ field :: back).flatten ++ tail =
      front.flatten ++ (field ++ (back.flatten ++ tail)) := by simp
  rw [hsplit, Mem.ofList, Mem.ofList, List.getD_append_right _ _ _ _ (by omega),
    List.getD_append _ _ _ _ (by omega), ho, Nat.add_sub_cancel_left]

theorem bytes_field (front : List (List UInt8)) (field : List UInt8) (back : List (List UInt8))
    (tail : List UInt8) (ho : front.flatten.length = o) (hn : field.length = n) :
    (Mem.ofList ((front ++ field :: back).flatten ++ tail)).bytes o n = field := by
  have hfield : (Mem.ofList field).bytes 0 n = field := by
    rw [Mem.bytes_ofList_drop (by omega), List.drop_zero, List.take_of_length_le (by omega)]
  rw [← hfield]
  refine Mem.bytes_congr fun i hi => ?_
  rw [hfield, ofList_field front field back tail ho (by omega), Nat.zero_add]

theorem getLE_field (front : List (List UInt8)) (v : Nat) (back : List (List UInt8))
    (tail : List UInt8) (ho : front.flatten.length = o) (hv : v < 2 ^ (8 * w)) :
    (Mem.ofList ((front ++ le v w :: back).flatten ++ tail)).getLE o w = v := by
  have hread : (Mem.ofList ((front ++ le v w :: back).flatten ++ tail)).getLE o w =
      (Mem.zeros.putLE 0 v w).getLE 0 w := by
    refine Mem.getLE_congr fun i hi => ?_
    rw [ofList_field front (le v w) back tail ho (by rwa [length_le]), ofList_le v w hi,
      Nat.zero_add]
  rw [hread, Mem.getLE_putLE hv]

end Fields

/-! ## Records in a row -/

/-- Lists of records are determined by their concatenation, when no record is
empty and no two of them go on to the same string with different lengths. -/
theorem flatten_inj {α : Type} {xs ys : List (List α)} (hx : ∀ x ∈ xs, x ≠ []) (hy : ∀ y ∈ ys, y ≠ [])
    (hlength : ∀ x ∈ xs, ∀ y ∈ ys, ∀ r r', x ++ r = y ++ r' → x.length = y.length)
    (h : xs.flatten = ys.flatten) : xs = ys := by
  induction xs generalizing ys with
  | nil =>
    cases ys with
    | nil => rfl
    | cons y ys =>
      have hnil := List.append_eq_nil_iff.mp h.symm
      exact absurd hnil.1 (hy y List.mem_cons_self)
  | cons x xs ih =>
    cases ys with
    | nil =>
      have hnil := List.append_eq_nil_iff.mp h
      exact absurd hnil.1 (hx x List.mem_cons_self)
    | cons y ys =>
      rw [List.flatten_cons, List.flatten_cons] at h
      have hlen := hlength x List.mem_cons_self y List.mem_cons_self _ _ h
      obtain ⟨rfl, hrest⟩ := List.append_inj h hlen
      rw [ih (fun z hz => hx z (List.mem_cons_of_mem _ hz)) (fun z hz => hy z (List.mem_cons_of_mem _ hz))
        (fun a ha b hb => hlength a (List.mem_cons_of_mem _ ha) b (List.mem_cons_of_mem _ hb)) hrest]

/-! ## Big-endian numbers -/

/-- The `w` big-endian bytes of `v`. -/
def be (v w : Nat) : List UInt8 := (le v w).reverse

/-- A byte string as a big-endian number. -/
def ofBe (bs : List UInt8) : Nat := (Mem.ofList bs.reverse).getLE 0 bs.length

@[simp] theorem length_be (v w : Nat) : (be v w).length = w := by rw [be, List.length_reverse, length_le]

theorem ofBe_lt (bs : List UInt8) : ofBe bs < 2 ^ (8 * bs.length) := Mem.getLE_lt _ _ _

theorem ofBe_be {v : Nat} (h : v < 2 ^ (8 * w)) : ofBe (be v w) = v := by
  have hread := getLE_field (o := 0) [] v [] [] rfl h
  rw [ofBe, length_be, be, List.reverse_reverse]
  simpa using hread

theorem be_ofBe (h : bs.length = n) : be (ofBe bs) n = bs := by
  subst h
  have hread : (Mem.ofList bs.reverse).bytes 0 bs.length = bs.reverse := by
    rw [Mem.bytes_ofList_drop (by simp), List.drop_zero, List.take_of_length_le (by simp)]
  rw [be, ofBe, le_getLE, hread, List.reverse_reverse]

/-- The leading byte has the most weight. -/
theorem ofBe_cons (b : UInt8) (bs : List UInt8) :
    ofBe (b :: bs) = b.toNat * 2 ^ (8 * bs.length) + ofBe bs := by
  have hlast : Mem.ofList (bs.reverse ++ [b]) (0 + bs.length) = b := by
    simp [Mem.ofList]
  have hrest : (Mem.ofList (bs.reverse ++ [b])).getLE 0 bs.length =
      (Mem.ofList bs.reverse).getLE 0 bs.length := by
    refine Mem.getLE_congr fun i hi => ?_
    rw [Mem.ofList, Mem.ofList, List.getD_append _ _ _ _ (by rw [List.length_reverse]; omega)]
  rw [ofBe, List.reverse_cons, List.length_cons, Mem.getLE_succ, hlast, hrest, Nat.add_comm]
  rfl

/-- A number that needs all its bytes starts with one that is not zero. -/
theorem be_succ {v : Nat} (h : v < 2 ^ (8 * (w + 1))) :
    ∃ rest, be v (w + 1) = UInt8.ofNat (v / 2 ^ (8 * w)) :: rest ∧ rest.length = w := by
  obtain ⟨b, rest, hcons⟩ : ∃ b rest, be v (w + 1) = b :: rest :=
    List.exists_cons_of_ne_nil fun hnil => by simpa [hnil] using length_be v (w + 1)
  have hlen : rest.length = w := by
    have := length_be v (w + 1)
    rw [hcons, List.length_cons] at this
    omega
  refine ⟨rest, ?_, hlen⟩
  have hval := ofBe_be h
  rw [hcons, ofBe_cons, hlen] at hval
  have hlow := ofBe_lt rest
  rw [hlen] at hlow
  have hdiv : v / 2 ^ (8 * w) = b.toNat := by
    rw [← hval, Nat.add_comm, Nat.add_mul_div_right _ _ (Nat.two_pow_pos _), Nat.div_eq_of_lt hlow,
      Nat.zero_add]
  rw [hcons, hdiv, UInt8.ofNat_toNat]

/-! ## A field overwritten -/

/-- A number packed into a byte string is a store to the memory it is. -/
theorem ofList_overwrite {off : Nat} (v : Nat) (h : off + w ≤ bs.length) :
    Mem.ofList (bs.take off ++ le v w ++ bs.drop (off + w)) = (Mem.ofList bs).putLE off v w := by
  have hfront : (bs.take off).length = off := by
    rw [List.length_take]
    omega
  funext i
  rw [Mem.putLE_apply, List.append_assoc]
  by_cases hlo : i < off
  · rw [if_neg (by omega), Mem.ofList, List.getD_append _ _ _ _ (by omega)]
    simp [Mem.ofList, hlo]
  · obtain ⟨j, rfl⟩ := Nat.exists_eq_add_of_le (Nat.le_of_not_lt hlo)
    rw [Mem.ofList, List.getD_append_right _ _ _ _ (by omega), hfront, Nat.add_sub_cancel_left]
    by_cases hj : j < w
    · rw [if_pos (by omega), List.getD_append _ _ _ _ (by rwa [length_le])]
      refine (ofList_le v w hj).trans ?_
      rw [Mem.putLE_apply, if_pos (by omega), Nat.sub_zero]
    · rw [if_neg (by omega), List.getD_append_right _ _ _ _ (by rw [length_le]; omega), length_le]
      simp only [Mem.ofList, List.getD_eq_getElem?_getD, List.getElem?_drop]
      congr 2
      omega

/-! ## A range zeroed -/

/-- The byte string with the `n` bytes at `off` zeroed. -/
def zeroed (bs : List UInt8) (off n : Nat) : List UInt8 :=
  bs.mapIdx fun i b => if off ≤ i ∧ i < off + n then 0 else b

theorem zeroed_eq {off : Nat} (h : off + n ≤ bs.length) :
    zeroed bs off n = bs.take off ++ List.replicate n 0 ++ bs.drop (off + n) := by
  apply List.ext_getElem
  · simp only [zeroed, List.length_mapIdx, List.length_append, List.length_take,
      List.length_replicate, List.length_drop]
    omega
  · intro i hi _
    simp only [zeroed, List.length_mapIdx] at hi
    simp only [zeroed, List.getElem_mapIdx, List.getElem_append, List.length_append,
      List.length_take, List.length_replicate, List.getElem_take, List.getElem_replicate,
      List.getElem_drop, Nat.min_eq_left (show off ≤ bs.length by omega)]
    by_cases hlo : i < off
    · rw [if_neg (by omega), dif_pos (by omega), dif_pos hlo]
    · by_cases hmid : i < off + n
      · rw [if_pos (by omega), dif_pos (by omega), dif_neg hlo]
      · rw [if_neg (by omega), dif_neg (by omega)]
        congr 1
        omega

end Machine
