import BearBoot.V2.Accept
import BearBoot.V2.Encode

/-!
# The C capsule builder, as `v2/bbp_v2.c` computes it

`bbp_v2_build` goes over its entries three times: once to size the
capsule, once to refuse sources that alias the output, and once to write.
The two layouts are computed separately; that they agree is a theorem
(`build_isEncoding`: what is written is the canonical encoding), as is the
exact condition under which anything is written at all (`build_ok_iff`).

Payloads are read from the same memory the output is written to. The
array of entries is passed by value; `none` is a `NULL` array with a
nonzero count.
-/

namespace BearBoot.V2

open Machine

variable {m m' : Mem} {cursor a i w₀ : Nat}

/-- `struct bbp_v2_build_entry`. -/
structure BuildEntry where
  type : UInt64
  flags : UInt32
  version : UInt16
  alignment : UInt32
  data : Nat
  size : Nat
  deriving DecidableEq, Repr

/-- `align_up`; `none` where it answers `0`. -/
def alignUp (value alignment : Nat) : Option Nat :=
  let mask := alignment - 1
  if 2 ^ 64 - 1 - mask < value then none else some ((value + mask) &&& not64 mask)

def memoryRangesOverlap (a aSize b bSize : Nat) : Prop :=
  2 ^ 64 - 1 - a < aSize ∨ 2 ^ 64 - 1 - b < bSize ∨ (a < b + bSize ∧ b < a + aSize)

instance (a aSize b bSize : Nat) : Decidable (memoryRangesOverlap a aSize b bSize) :=
  inferInstanceAs (Decidable (_ ∨ _))

/-- One turn of the sizing loop: cursor and payload work. -/
def sizeEntry (st : Nat × Nat) (e : BuildEntry) : Except Error (Nat × Nat) :=
  let (cursor, payloadWork) := st
  if e.data = 0 ∨ e.size = 0 then .error .null
  else if ¬ powerOfTwo e.alignment.toNat ∨ 4096 < e.alignment.toNat then .error .alignment
  else
    match alignUp cursor e.alignment.toNat with
    | none => .error .overflow
    | some cursor =>
      if 2 ^ 64 - 1 - cursor < e.size then .error .overflow
      else if maxCrcWork - payloadWork < e.size then .error .work
      else if maxExtent < cursor + e.size then .error .extent
      else .ok (cursor + e.size, payloadWork + e.size)

/-- The sizing loop. -/
def sizeEntries : (st : Nat × Nat) → List BuildEntry → Except Error (Nat × Nat)
  | st, [] => .ok st
  | st, e :: es =>
    match sizeEntry st e with
    | .error err => .error err
    | .ok st => sizeEntries st es

/-- The header stores of `bbp_v2_build`. -/
def putHeader (m : Mem) (output entryCount total : Nat) : Mem :=
  let m := m.fill output total
  let m := m.blit output magic
  let m := put16 m (output + 8) 2
  let m := put16 m (output + 10) 0
  let m := put16 m (output + 12) 64
  let m := put16 m (output + 14) 48
  let m := put32 m (output + 16) 0
  let m := put32 m (output + 20) entryCount
  let m := put64 m (output + 24) total
  put64 m (output + 32) 64

/-- The stores of one directory entry, at `entry`, for the payload at
`cursor`. -/
def putDirent (m : Mem) (output entry cursor : Nat) (e : BuildEntry) : Mem :=
  let m := put64 m entry e.type.toNat
  let m := put32 m (entry + 8) e.flags.toNat
  let m := put16 m (entry + 12) e.version.toNat
  let m := put64 m (entry + 16) cursor
  let m := put64 m (entry + 24) e.size
  let m := put64 m (entry + 32) (crc64 (m.bytes (output + cursor) e.size))
  put32 m (entry + 40) e.alignment.toNat

/-- The emission loop, from the `i`-th entry on. -/
def emitEntries (output : Nat) : (i cursor : Nat) → Mem → List BuildEntry → Mem
  | _, _, m, [] => m
  | i, cursor, m, e :: es =>
    let entry := output + 64 + i * 48
    let cursor := (alignUp cursor e.alignment.toNat).getD cursor
    let m := m.copy (output + cursor) e.data e.size
    let m := putDirent m output entry cursor e
    emitEntries output (i + 1) (cursor + e.size) m es

/-- The whole emission. -/
def emit (m : Mem) (output total : Nat) (entries : List BuildEntry) : Mem :=
  let m := putHeader m output entries.length total
  let m := emitEntries output 0 (64 + entries.length * 48) m entries
  put64 m (output + 40) (crcSpliced m output total 40)

/-- `bbp_v2_build` past its `NULL` checks: the length it answers, or why
not. -/
def buildSize (output capacity : Nat) (entries : List BuildEntry) : Except Error Nat :=
  if 1024 < entries.length then .error .count
  else
    match sizeEntries (64 + entries.length * 48, 0) entries with
    | .error err => .error err
    | .ok (total, payloadWork) =>
      if maxCrcWork - payloadWork < total then .error .work
      else if capacity < total then .error .capacity
      else if ∃ e ∈ entries, memoryRangesOverlap output total e.data e.size then .error .source
      else .ok total

/-- `bbp_v2_build`: the status, the contents of `*written`, the memory. -/
def build (m : Mem) (output capacity : Nat) (entries : Option (List BuildEntry))
    (written : Option Nat) : Except Error Unit × Option Nat × Mem :=
  match entries, written with
  | some entries, some _ =>
    if output = 0 then (.error .null, some 0, m)
    else
      match buildSize output capacity entries with
      | .error err => (.error err, some 0, m)
      | .ok total => (.ok (), some total, emit m output total entries)
  | _, none => (.error .null, none, m)
  | none, some _ => (.error .null, some 0, m)

/-! ## What is sized -/

/-- The item an entry stands for, its payload read from memory. -/
def BuildEntry.item (m : Mem) (e : BuildEntry) : Item :=
  ⟨e.type.toNat, e.flags.toNat, e.version.toNat, e.alignment.toNat, m.bytes e.data e.size⟩

/-- An entry the builder takes: a payload that is there, and an alignment
the format allows. -/
structure BuildEntry.Ok (e : BuildEntry) : Prop where
  data : e.data ≠ 0
  size : e.size ≠ 0
  power : ∃ k, e.alignment.toNat = 2 ^ k
  small : e.alignment.toNat ≤ 4096

theorem bodyStart_items (m : Mem) (es : List BuildEntry) :
    bodyStart (es.map (BuildEntry.item m)) = 64 + es.length * 48 := by
  rw [bodyStart, List.length_map]

variable {e : BuildEntry}

theorem BuildEntry.Ok.item (h : e.Ok) : (e.item m).Ok := by
  refine ⟨h.power, h.small, fun hnil => h.size ?_⟩
  rw [← m.bytes_length e.data e.size]
  exact List.length_eq_zero_iff.mpr hnil

/-- Below the extent limit the alignment never overflows. -/
theorem alignUp_eq {value alignment : Nat} (hvalue : value ≤ maxExtent)
    (hpower : ∃ k, alignment = 2 ^ k) (hsmall : alignment ≤ 4096) :
    alignUp value alignment = some (roundUp value alignment) := by
  obtain ⟨k, rfl⟩ := hpower
  have hk : k ≤ 64 := by
    by_contra hlt
    have : 2 ^ 64 ≤ 2 ^ k := Nat.pow_le_pow_right (by decide) (by omega)
    omega
  unfold maxExtent at hvalue
  unfold alignUp
  rw [if_neg (by omega), add_and_not64 hk (by omega)]

section Size

variable {m : Mem}

theorem sizeEntry_ok_iff {work : Nat} {st : Nat × Nat}
    (hcursor : cursor ≤ maxExtent) (hwork : work ≤ maxCrcWork) :
    sizeEntry (cursor, work) e = .ok st ↔
      e.Ok ∧ roundUp cursor e.alignment.toNat + e.size ≤ maxExtent ∧
        work + e.size ≤ maxCrcWork ∧
        st = (roundUp cursor e.alignment.toNat + e.size, work + e.size) := by
  unfold sizeEntry
  dsimp only
  by_cases hnull : e.data = 0 ∨ e.size = 0
  · rw [if_pos hnull]
    refine ⟨(fun h => by cases h), ?_⟩
    rintro ⟨hok, _⟩
    exact absurd hnull (not_or.mpr ⟨hok.data, hok.size⟩)
  rw [if_neg hnull]
  by_cases halign : ¬ powerOfTwo e.alignment.toNat ∨ 4096 < e.alignment.toNat
  · rw [if_pos halign]
    refine ⟨(fun h => by cases h), ?_⟩
    rintro ⟨hok, _⟩
    have hsmall := hok.small
    exact absurd halign (not_or.mpr ⟨not_not.mpr (powerOfTwo_iff.mpr hok.power), by omega⟩)
  rw [if_neg halign]
  obtain ⟨hdata, hsize⟩ := not_or.mp hnull
  obtain ⟨hpow, hsmall⟩ := not_or.mp halign
  have hpower := powerOfTwo_iff.mp (not_not.mp hpow)
  have hok : e.Ok := ⟨hdata, hsize, hpower, by omega⟩
  rw [alignUp_eq hcursor hpower hok.small]
  dsimp only
  by_cases hover : 2 ^ 64 - 1 - roundUp cursor e.alignment.toNat < e.size
  · rw [if_pos hover]
    refine ⟨(fun h => by cases h), ?_⟩
    rintro ⟨_, hext, _⟩
    unfold maxExtent at hext
    omega
  rw [if_neg hover]
  by_cases hmax : maxCrcWork - work < e.size
  · rw [if_pos hmax]
    refine ⟨(fun h => by cases h), ?_⟩
    rintro ⟨_, _, hw, _⟩
    omega
  rw [if_neg hmax]
  by_cases hext : maxExtent < roundUp cursor e.alignment.toNat + e.size
  · rw [if_pos hext]
    refine ⟨(fun h => by cases h), ?_⟩
    rintro ⟨_, hx, _⟩
    omega
  rw [if_neg hext, Except.ok.injEq]
  constructor
  · rintro rfl
    exact ⟨hok, by omega, by omega, rfl⟩
  · rintro ⟨_, _, _, rfl⟩
    rfl

variable {es : List BuildEntry}

/-- The sizing loop gets through exactly when every entry is fine and the
end and the work stay within bounds. -/
theorem sizeEntries_ok_iff {work : Nat} {st : Nat × Nat}
    (hcursor : cursor ≤ maxExtent) (hwork : work ≤ maxCrcWork) :
    sizeEntries (cursor, work) es = .ok st ↔
      (∀ e ∈ es, e.Ok) ∧ finish cursor (es.map (BuildEntry.item m)) ≤ maxExtent ∧
        work + weight (es.map (BuildEntry.item m)) ≤ maxCrcWork ∧
        st = (finish cursor (es.map (BuildEntry.item m)),
          work + weight (es.map (BuildEntry.item m))) := by
  induction es generalizing cursor work with
  | nil =>
    rw [sizeEntries, Except.ok.injEq]
    constructor
    · rintro rfl
      exact ⟨(fun e he => by cases he), hcursor, hwork, rfl⟩
    · rintro ⟨_, _, _, rfl⟩
      rfl
  | cons e es ih =>
    have hlen : (e.item m).data.length = e.size := m.bytes_length e.data e.size
    have hfinish : finish cursor ((e :: es).map (BuildEntry.item m)) =
        finish (roundUp cursor e.alignment.toNat + e.size) (es.map (BuildEntry.item m)) := by
      rw [List.map_cons, finish, hlen]
      rfl
    have hweight : weight ((e :: es).map (BuildEntry.item m)) =
        e.size + weight (es.map (BuildEntry.item m)) := by
      rw [weight, List.map_cons, List.map_cons, List.sum_cons, hlen]
      rfl
    rw [hfinish, hweight, sizeEntries]
    constructor
    · intro h
      cases hhead : sizeEntry (cursor, work) e with
      | error err => rw [hhead] at h; cases h
      | ok st' =>
        rw [hhead] at h
        obtain ⟨hok, hext, hmax, rfl⟩ := (sizeEntry_ok_iff hcursor hwork).mp hhead
        obtain ⟨hrest, hfin, hsum, rfl⟩ := (ih hext hmax).mp h
        refine ⟨?_, hfin, by omega, by rw [Nat.add_assoc]⟩
        intro x hx
        rcases List.mem_cons.mp hx with rfl | hx
        · exact hok
        · exact hrest x hx
    · rintro ⟨hall, hfin, hsum, rfl⟩
      have hok := hall e List.mem_cons_self
      have hrest : ∀ x ∈ es, x.Ok := fun x hx => hall x (List.mem_cons_of_mem _ hx)
      have hle : roundUp cursor e.alignment.toNat + e.size ≤
          finish (roundUp cursor e.alignment.toNat + e.size) (es.map (BuildEntry.item m)) := by
        refine le_finish fun it hit => ?_
        obtain ⟨x, hx, rfl⟩ := List.mem_map.mp hit
        exact (hrest x hx).item
      have hhead := (sizeEntry_ok_iff hcursor hwork).mpr
        ⟨hok, Nat.le_trans hle hfin, by omega, rfl⟩
      rw [hhead]
      refine (ih (Nat.le_trans hle hfin) (by omega)).mpr ⟨hrest, hfin, by omega, ?_⟩
      rw [Nat.add_assoc]

end Size

/-! ## What is written -/

section Stores

variable {m : Mem} {output entry cursor : Nat} {e : BuildEntry}

theorem putDirent_frame (h : a < entry ∨ entry + 48 ≤ a) :
    putDirent m output entry cursor e a = m a := by
  simp (disch := omega) only [putDirent, put64, put32, put16, Mem.putLE_frame]

/-- The entry written for a payload that stands at the cursor, over zeros. -/
theorem direntAt_putDirent {data : List UInt8} (hcursor : cursor < 2 ^ 64) (hsize : e.size < 2 ^ 64)
    (hzero : ∀ k < 48, m (entry + k) = 0) (hdata : m.bytes (output + cursor) e.size = data)
    (hapart : entry + 48 ≤ output + cursor) :
    direntAt (putDirent m output entry cursor e) entry =
      Slot.dirent ⟨cursor, ⟨e.type.toNat, e.flags.toNat, e.version.toNat, e.alignment.toNat,
        data⟩⟩ := by
  have hlen : data.length = e.size := by rw [← hdata, Mem.bytes_length]
  have htype := e.type.toNat_lt
  have hflags := e.flags.toNat_lt
  have hversion := e.version.toNat_lt
  have halign := e.alignment.toNat_lt
  have hcrc := crc64_lt data
  have hreserved : ∀ o w, o + w ≤ 48 → m.getLE (entry + o) w = 0 := by
    intro o w how
    refine Mem.getLE_eq_zero_iff.mpr fun i hi => ?_
    rw [Nat.add_assoc]
    exact hzero (o + i) (by omega)
  have hsum : ∀ m' : Mem, (∀ a, entry + 48 ≤ a → m' a = m a) →
      m'.bytes (output + cursor) e.size = data := by
    intro m' hm'
    rw [← hdata]
    exact Mem.bytes_congr fun i _ => hm' _ (by omega)
  unfold putDirent
  dsimp only
  rw [hsum]
  · unfold direntAt Slot.dirent
    simp (disch := omega) only [get64, get32, get16, put64, put32, put16, Mem.getLE_putLE_frame,
      Mem.getLE_putLE, hreserved, hlen]
  · intro a ha
    simp (disch := omega) only [put64, put32, put16, Mem.putLE_frame]

end Stores

section Emit

variable {output : Nat}

/-- What the emission loop leaves behind from the `i`-th entry on: the
entries' slots, and nothing outside them and their directory. -/
structure Emitted (output i cursor : Nat) (m m' : Mem) (items : List Item) : Prop where
  frame : ∀ a, (a < output + 64 + i * 48 ∨ output + 64 + (i + items.length) * 48 ≤ a) →
    (∀ s ∈ slots cursor items, a < output + s.offset ∨ output + s.span.stop ≤ a) → m' a = m a
  entries : (List.range items.length).map (fun k => direntAt m' (output + 64 + (i + k) * 48)) =
    (slots cursor items).map Slot.dirent
  payloads : ∀ s ∈ slots cursor items,
    m'.bytes (output + s.offset) s.item.data.length = s.item.data

/-- A turn that leaves the slot of `it`, and the loop behind it. -/
theorem Emitted.cons {place : Nat} {m₁ : Mem} {it : Item} {items : List Item}
    (hplace : roundUp cursor it.alignment = place) (hdir : 64 + (i + 1 + items.length) * 48 ≤ place)
    (hok : ∀ x ∈ items, x.Ok)
    (hframe₁ : ∀ a, (a < output + 64 + i * 48 ∨ output + 64 + i * 48 + 48 ≤ a) →
      (a < output + place ∨ output + place + it.data.length ≤ a) → m₁ a = m a)
    (hdirent : direntAt m₁ (output + 64 + i * 48) = Slot.dirent ⟨place, it⟩)
    (hpayload : m₁.bytes (output + place) it.data.length = it.data)
    (h : Emitted output (i + 1) (place + it.data.length) m₁ m' items) :
    Emitted output i cursor m m' (it :: items) := by
  have hslots : slots cursor (it :: items) =
      ⟨place, it⟩ :: slots (place + it.data.length) items := by rw [slots, hplace]
  have hcount : (it :: items).length = items.length + 1 := rfl
  have hlater : ∀ s ∈ slots (place + it.data.length) items, place + it.data.length ≤ s.offset :=
    fun s hs => (slot_bounds hok hs).2.1
  -- the loop does not come back to this slot or to its directory entry
  have hkeep : ∀ a, (a < output + 64 + (i + 1) * 48 ∨ output + place ≤ a) →
      a < output + place + it.data.length → m' a = m₁ a := by
    intro a hlo hhi
    refine h.frame a (by omega) fun s hs => ?_
    have := hlater s hs
    omega
  refine ⟨?_, ?_, ?_⟩
  · intro a hentry hspans
    rw [hslots] at hspans
    rw [hcount] at hentry
    have hhead := hspans _ List.mem_cons_self
    unfold Slot.span Span.stop at hhead
    dsimp only at hhead
    rw [h.frame a (by omega) fun s hs => hspans s (List.mem_cons_of_mem _ hs)]
    exact hframe₁ a (by omega) (by omega)
  · have hfirst : direntAt m' (output + 64 + (i + 0) * 48) = Slot.dirent ⟨place, it⟩ := by
      rw [Nat.add_zero, ← hdirent]
      exact direntAt_congr fun k hk => hkeep _ (by omega) (by omega)
    rw [hslots, hcount, List.range_succ_eq_map, List.map_cons, List.map_map, List.map_cons,
      ← h.entries, hfirst]
    refine congrArg _ (List.map_congr_left fun k _ => ?_)
    rw [Function.comp_apply, Nat.succ_eq_add_one, Nat.add_comm k 1, ← Nat.add_assoc]
  · intro s hs
    rw [hslots] at hs
    rcases List.mem_cons.mp hs with rfl | hs
    · dsimp only
      refine Eq.trans (Mem.bytes_congr fun k hk => ?_) hpayload
      exact hkeep _ (by omega) (by omega)
    · exact h.payloads s hs

/-- One turn of the loop: the payload copied to `place`, and its directory
entry. -/
theorem putEntry_spec (output i place : Nat) {m₀ : Mem}
    (hplace : place < 2 ^ 64) (hsize : e.size < 2 ^ 64) (hdir : 64 + (i + 1) * 48 ≤ place)
    (hapart : e.data + e.size ≤ output + place ∨ output + place + e.size ≤ e.data)
    (hsrc : ∀ k < e.size, m (e.data + k) = m₀ (e.data + k))
    (hzero : ∀ k < 48, m (output + 64 + i * 48 + k) = 0) :
    ∃ m₁, putDirent (m.copy (output + place) e.data e.size) output (output + 64 + i * 48) place e =
        m₁ ∧
      (∀ a, (a < output + 64 + i * 48 ∨ output + 64 + i * 48 + 48 ≤ a) →
        (a < output + place ∨ output + place + e.size ≤ a) → m₁ a = m a) ∧
      direntAt m₁ (output + 64 + i * 48) = Slot.dirent ⟨place, e.item m₀⟩ ∧
      m₁.bytes (output + place) e.size = (e.item m₀).data := by
  have hcopied : (m.copy (output + place) e.data e.size).bytes (output + place) e.size =
      (e.item m₀).data := by
    refine Mem.bytes_congr fun k hk => ?_
    rw [Mem.copy_apply (by omega) k hk]
    exact hsrc k hk
  refine ⟨_, rfl, ?_, ?_, ?_⟩
  · intro a hentry hpay
    rw [putDirent_frame hentry, Mem.copy_frame hpay]
  · refine direntAt_putDirent hplace hsize (fun k hk => ?_) hcopied (by omega)
    rw [Mem.copy_frame (by omega)]
    exact hzero k hk
  · rw [← hcopied]
    exact Mem.bytes_congr fun k _ => putDirent_frame (by omega)

theorem emitEntries_spec {m₀ : Mem} {total : Nat}
    (hok : ∀ e ∈ es, e.Ok) (hdir : 64 + (i + es.length) * 48 ≤ cursor)
    (hfin : finish cursor (es.map (BuildEntry.item m₀)) ≤ total) (htotal : total ≤ maxExtent)
    (hapart : ∀ e ∈ es, e.data + e.size ≤ output ∨ output + total ≤ e.data)
    (hsrc : ∀ e ∈ es, ∀ k < e.size, m (e.data + k) = m₀ (e.data + k))
    (hzero : ∀ k, 64 + i * 48 ≤ k → k < 64 + (i + es.length) * 48 → m (output + k) = 0) :
    Emitted output i cursor m (emitEntries output i cursor m es)
      (es.map (BuildEntry.item m₀)) := by
  induction es generalizing i cursor m with
  | nil =>
    refine ⟨fun _ _ _ => rfl, rfl, fun s hs => by cases hs⟩
  | cons e es ih =>
    have he := hok e List.mem_cons_self
    have hrest : ∀ x ∈ es, x.Ok := fun x hx => hok x (List.mem_cons_of_mem _ hx)
    have hitems : ∀ it ∈ es.map (BuildEntry.item m₀), it.Ok := by
      intro it hit
      obtain ⟨x, hx, rfl⟩ := List.mem_map.mp hit
      exact (hrest x hx).item
    have hlen : (e.item m₀).data.length = e.size := m₀.bytes_length e.data e.size
    obtain ⟨place, hplace⟩ : ∃ place, roundUp cursor e.alignment.toNat = place := ⟨_, rfl⟩
    have hup : cursor ≤ place := by
      obtain ⟨k, hk⟩ := he.power
      rw [← hplace]
      exact le_roundUp cursor (hk ▸ Nat.two_pow_pos k)
    have hfin : finish (place + e.size) (es.map (BuildEntry.item m₀)) ≤ total := by
      rw [← hplace, ← hlen]
      exact hfin
    have hmid := Nat.le_trans (le_finish hitems) hfin
    have hsource := hapart e List.mem_cons_self
    rw [List.length_cons] at hdir hzero
    have hbound : place + e.size ≤ maxExtent := Nat.le_trans hmid htotal
    have hlimit : maxExtent < 2 ^ 64 := by decide
    obtain ⟨m₁, hm₁, hframe, hdirent, hpayload⟩ := putEntry_spec output i place
      (by omega) (by omega) (by omega) (by omega) (hsrc e List.mem_cons_self)
      fun k hk => by
        rw [Nat.add_assoc, Nat.add_assoc]
        exact hzero _ (by omega) (by omega)
    have hstep : emitEntries output i cursor m (e :: es) =
        emitEntries output (i + 1) (place + e.size) m₁ es := by
      rw [emitEntries, alignUp_eq (by omega) he.power he.small, hplace, ← hm₁]
      rfl
    rw [hstep, List.map_cons]
    refine Emitted.cons hplace (by rw [List.length_map]; omega) hitems (by rwa [hlen]) hdirent
      (by rwa [hlen]) ?_
    rw [hlen]
    refine ih hrest (by omega) hfin (fun x hx => hapart x (List.mem_cons_of_mem _ hx))
      (fun x hx k hk => ?_) fun k hlo hhi => ?_
    · have hx' := hapart x (List.mem_cons_of_mem _ hx)
      rw [hframe _ (by omega) (by omega)]
      exact hsrc x (List.mem_cons_of_mem _ hx) k hk
    · rw [hframe _ (by omega) (by omega)]
      exact hzero k (by omega) (by omega)

end Emit

section Whole

variable {m : Mem} {output count total : Nat}

theorem putHeader_frame (htotal : 64 ≤ total) (h : a < output ∨ output + total ≤ a) :
    putHeader m output count total a = m a := by
  simp (disch := omega) only [putHeader, put64, put32, put16, Mem.putLE_frame]
  rw [Mem.blit_frame (by rw [show magic.length = 8 from rfl]; omega), Mem.fill_apply,
    if_neg (by omega)]

/-- Behind the fields the capsule is zero. -/
theorem putHeader_zero {k : Nat} (hlo : 40 ≤ k) (hhi : k < total) :
    putHeader m output count total (output + k) = 0 := by
  simp (disch := omega) only [putHeader, put64, put32, put16, Mem.putLE_frame]
  rw [Mem.blit_frame (by rw [show magic.length = 8 from rfl]; omega), Mem.fill_apply,
    if_pos (by omega)]

theorem putHeader_headerIs (hcount : count < 2 ^ 32) (hlow : 64 ≤ total) (htotal : total < 2 ^ 64) :
    HeaderIs ((putHeader m output count total).based output) total count := by
  have hmagic : ((putHeader m output count total).based output).bytes 0 8 = V2.magic := by
    rw [Mem.bytes_based, Nat.add_zero, ← ((m.fill output total).bytes_blit output magic)]
    refine Mem.bytes_congr fun i hi => ?_
    simp (disch := omega) only [putHeader, put64, put32, put16, Mem.putLE_frame]
  have hreserved : ∀ o, 48 ≤ o → o + 8 ≤ 64 →
      get64 ((putHeader m output count total).based output) o = 0 := by
    intro o hlo hhi
    refine Mem.getLE_eq_zero_iff.mpr fun i hi => ?_
    exact putHeader_zero (by omega) (by omega)
  refine ⟨hmagic, ?_, ?_, ?_, ?_, ?_, ?_, ?_, ?_, hreserved 48 (by decide) (by decide),
    hreserved 56 (by decide) (by decide)⟩
  all_goals
    simp only [entryCount, totalSize, directoryOffset, ← get16_based, ← get32_based,
      ← get64_based]
    simp (disch := omega) only [putHeader, get64, get32, get16, put64, put32, put16,
      Mem.getLE_putLE_frame, Mem.getLE_putLE]

/-- The capsule the builder writes is the canonical encoding of its
entries, and nothing else is written. -/
theorem emit_isEncoding (hn : total = finish (64 + es.length * 48) (es.map (BuildEntry.item m)))
    (hok : ∀ e ∈ es, e.Ok) (hcount : es.length ≤ 1024) (hextent : total ≤ maxExtent)
    (hapart : ∀ e ∈ es, e.data + e.size ≤ output ∨ output + total ≤ e.data) :
    IsEncoding ((emit m output total es).based output) total (es.map (BuildEntry.item m)) ∧
      ∀ a, a < output ∨ output + total ≤ a → emit m output total es a = m a := by
  have hitems : ∀ it ∈ es.map (BuildEntry.item m), it.Ok := by
    intro it hit
    obtain ⟨x, hx, rfl⟩ := List.mem_map.mp hit
    exact (hok x hx).item
  have hbody := bodyStart_items m es
  have hlow : 64 + es.length * 48 ≤ total := by
    rw [hn]
    exact le_finish hitems
  have hbound : total < 2 ^ 64 := Nat.lt_of_le_of_lt hextent (by decide)
  obtain ⟨hframe, hentries, hpayloads⟩ := emitEntries_spec (i := 0)
    (m := putHeader m output es.length total) hok (by omega) (Nat.le_of_eq hn.symm) hextent hapart
    (fun e he k hk => putHeader_frame (by omega) (by have := hapart e he; omega))
    (fun k hlo hhi => putHeader_zero (by omega) (by omega))
  rw [List.length_map, Nat.zero_add] at hframe
  rw [List.length_map] at hentries
  have hstart : ∀ s ∈ slots (64 + es.length * 48) (es.map (BuildEntry.item m)),
      64 + es.length * 48 ≤ s.offset ∧ s.span.stop ≤ total := by
    intro s hs
    obtain ⟨_, hle, _, hstop⟩ := slot_bounds hitems hs
    exact ⟨hle, hn ▸ hstop⟩
  obtain ⟨m₂, hm₂⟩ : ∃ m₂, emitEntries output 0 (64 + es.length * 48)
      (putHeader m output es.length total) es = m₂ := ⟨_, rfl⟩
  rw [hm₂] at hframe hentries hpayloads
  have hemit : emit m output total es = put64 m₂ (output + 40) (crcSpliced m₂ output total 40) := by
    rw [← hm₂]
    rfl
  have hlast : ∀ a, a < output + 40 ∨ output + 48 ≤ a → emit m output total es a = m₂ a := by
    intro a ha
    rw [hemit]
    exact Mem.putLE_frame (by omega)
  refine ⟨⟨⟨?_, ?_, ?_, ?_, ?_⟩, ?_⟩, ?_⟩
  · rw [hbody]
    exact hn
  · rw [List.length_map]
    have hheader : HeaderIs ((putHeader m output es.length total).based output) total es.length :=
      putHeader_headerIs (by omega) (by omega) hbound
    refine hheader.congr fun i hi hni => ?_
    rw [Mem.based_apply, Mem.based_apply, hlast _ (by omega)]
    refine hframe _ (by omega) fun s hs => ?_
    have := (hstart s hs).1
    omega
  · rw [hbody, List.length_map, ← hentries]
    refine List.map_congr_left fun i _ => direntAt_congr fun k hk => ?_
    have haddr : output + (64 + i * 48 + k) = output + 64 + (0 + i) * 48 + k := by omega
    rw [Mem.based_apply, haddr]
    exact hlast _ (by omega)
  · intro s hs
    rw [hbody] at hs
    have := (hstart s hs).1
    rw [Mem.bytes_based]
    refine Eq.trans (Mem.bytes_congr fun k _ => ?_) (hpayloads s hs)
    exact hlast _ (by omega)
  · intro x hx hstartx hnone
    rw [hbody] at hstartx hnone
    rw [Mem.based_apply, hlast _ (by omega), hframe _ (by omega)]
    · exact putHeader_zero (by omega) hx
    · intro s hs
      have hcover := hnone s hs
      unfold Span.Covers at hcover
      change ¬ (s.offset ≤ x ∧ _) at hcover
      omega
  · have hseal := crcSpliced_seal m₂ output total 40
    rw [crcSpliced_based, Nat.add_zero, ← get64_based, hemit]
    exact hseal.symm
  · intro a ha
    rw [hlast a (by omega), hframe a (by omega), putHeader_frame (by omega) ha]
    intro s hs
    have := (hstart s hs).1
    have := (hstart s hs).2
    omega

end Whole

/-! ## The builder -/

/-- How long the capsule of the entries is. -/
def builtSize (m : Mem) (es : List BuildEntry) : Nat :=
  finish (64 + es.length * 48) (es.map (BuildEntry.item m))

/-- Entries the format can hold, in a capsule the output can hold. -/
structure Buildable (m : Mem) (capacity : Nat) (es : List BuildEntry) : Prop where
  entries : ∀ e ∈ es, e.Ok
  count : es.length ≤ 1024
  extent : builtSize m es ≤ maxExtent
  work : builtSize m es + weight (es.map (BuildEntry.item m)) ≤ maxCrcWork
  capacity : builtSize m es ≤ capacity

/-- The payload is an object of the address space, apart from the `total`
bytes of the output. -/
structure BuildEntry.Apart (e : BuildEntry) (output total : Nat) : Prop where
  outputFits : output + total < 2 ^ 64
  dataFits : e.data + e.size < 2 ^ 64
  disjoint : e.data + e.size ≤ output ∨ output + total ≤ e.data

section Builder

variable {m : Mem} {output capacity : Nat} {es : List BuildEntry}

theorem Buildable.encodable (h : Buildable m capacity es) :
    Encodable (es.map (BuildEntry.item m)) := by
  have hbody := bodyStart_items m es
  refine ⟨fun it hit => ?_, by rw [List.length_map]; exact h.count, ?_, ?_⟩
  · obtain ⟨x, hx, rfl⟩ := List.mem_map.mp hit
    exact (h.entries x hx).item
  · rw [hbody]
    exact h.extent
  · rw [hbody]
    exact h.work

/-- Payloads that are there and make an encodable list can be built. -/
theorem Buildable.of_encodable (hdata : ∀ e ∈ es, e.data ≠ 0)
    (h : Encodable (es.map (BuildEntry.item m))) (hcapacity : builtSize m es ≤ capacity) :
    Buildable m capacity es := by
  have hbody := bodyStart_items m es
  have hcount := h.count
  have hextent := h.extent
  have hwork := h.work
  rw [List.length_map] at hcount
  rw [hbody] at hextent hwork
  refine ⟨fun e he => ?_, hcount, hextent, hwork, hcapacity⟩
  obtain ⟨hpower, hsmall, hnonempty⟩ := h.ok _ (List.mem_map_of_mem he)
  refine ⟨hdata e he, fun hsize => hnonempty ?_, hpower, hsmall⟩
  rw [BuildEntry.item, hsize]
  rfl

theorem Buildable.low (h : Buildable m capacity es) : 64 + es.length * 48 ≤ builtSize m es :=
  le_finish h.encodable.ok

/-- The alias test, on ranges that are not empty. -/
theorem not_memoryRangesOverlap_iff {aSize b bSize : Nat} (ha : aSize ≠ 0) (hb : bSize ≠ 0) :
    ¬ memoryRangesOverlap a aSize b bSize ↔
      a + aSize < 2 ^ 64 ∧ b + bSize < 2 ^ 64 ∧ (b + bSize ≤ a ∨ a + aSize ≤ b) := by
  unfold memoryRangesOverlap
  omega

theorem BuildEntry.apart_iff {total : Nat} (htotal : total ≠ 0)
    (hsize : e.size ≠ 0) :
    ¬ memoryRangesOverlap output total e.data e.size ↔ e.Apart output total := by
  rw [not_memoryRangesOverlap_iff htotal hsize]
  exact ⟨fun ⟨hout, hdata, hdisj⟩ => ⟨hout, hdata, hdisj⟩, fun h => ⟨h.1, h.2, h.3⟩⟩

theorem buildSize_ok_iff {n : Nat} :
    buildSize output capacity es = .ok n ↔
      Buildable m capacity es ∧ (∀ e ∈ es, e.Apart output (builtSize m es)) ∧
        n = builtSize m es := by
  have hapart : Buildable m capacity es → ((¬ ∃ e ∈ es, memoryRangesOverlap output (builtSize m es)
      e.data e.size) ↔ ∀ e ∈ es, e.Apart output (builtSize m es)) := by
    intro hb
    have hlow := hb.low
    constructor
    · intro h e he
      exact (BuildEntry.apart_iff (by omega) (hb.entries e he).size).mp
        fun hov => h ⟨e, he, hov⟩
    · rintro h ⟨e, he, hov⟩
      exact (BuildEntry.apart_iff (by omega) (hb.entries e he).size).mpr (h e he) hov
  have hsized : es.length ≤ 1024 → ∀ st, sizeEntries (64 + es.length * 48, 0) es = .ok st ↔
      (∀ e ∈ es, e.Ok) ∧ builtSize m es ≤ maxExtent ∧
        0 + weight (es.map (BuildEntry.item m)) ≤ maxCrcWork ∧
        st = (builtSize m es, 0 + weight (es.map (BuildEntry.item m))) := fun hcount st =>
    sizeEntries_ok_iff (by unfold maxExtent; omega) (Nat.zero_le maxCrcWork)
  unfold buildSize
  by_cases hcount : 1024 < es.length
  · rw [if_pos hcount]
    refine ⟨(fun h => by cases h), ?_⟩
    rintro ⟨hb, _⟩
    have := hb.count
    omega
  rw [if_neg hcount]
  have hcount' : es.length ≤ 1024 := by omega
  constructor
  · intro h
    cases hst : sizeEntries (64 + es.length * 48, 0) es with
    | error err => rw [hst] at h; cases h
    | ok st =>
      rw [hst] at h
      obtain ⟨hok, hext, hwork, rfl⟩ := (hsized hcount' st).mp hst
      rw [Nat.zero_add] at hwork
      dsimp only at h
      rw [Nat.zero_add] at h
      split at h
      next => cases h
      next htotal =>
        split at h
        next => cases h
        next hcap =>
          have hb : Buildable m capacity es :=
            ⟨hok, hcount', hext, by omega, by omega⟩
          split at h
          next => cases h
          next hnone =>
            cases h
            exact ⟨hb, (hapart hb).mp hnone, rfl⟩
  · rintro ⟨hb, hnone, rfl⟩
    have hwork := hb.work
    have hcap := hb.capacity
    have hst := (hsized hcount' _).mpr ⟨hb.entries, hb.extent, by omega, rfl⟩
    rw [hst]
    dsimp only
    rw [Nat.zero_add, if_neg (by omega), if_neg (by omega), if_neg ((hapart hb).mpr hnone)]

/-- The builder succeeds exactly on what the format and the output can
hold, and then emits. -/
theorem build_ok_iff {w : Option Nat} :
    build m output capacity (some es) (some w₀) = (.ok (), w, m') ↔
      output ≠ 0 ∧ Buildable m capacity es ∧ (∀ e ∈ es, e.Apart output (builtSize m es)) ∧
        w = some (builtSize m es) ∧ m' = emit m output (builtSize m es) es := by
  unfold build
  dsimp only
  by_cases hnull : output = 0
  · rw [if_pos hnull]
    refine ⟨(fun h => by cases h), ?_⟩
    rintro ⟨hne, _⟩
    exact absurd hnull hne
  rw [if_neg hnull]
  constructor
  · intro h
    cases hsize : buildSize output capacity es with
    | error err => rw [hsize] at h; cases h
    | ok total =>
      rw [hsize] at h
      obtain ⟨hb, hapart, rfl⟩ := (buildSize_ok_iff (m := m)).mp hsize
      cases h
      exact ⟨hnull, hb, hapart, rfl, rfl⟩
  · rintro ⟨_, hb, hapart, rfl, rfl⟩
    rw [buildSize_ok_iff.mpr ⟨hb, hapart, rfl⟩]

/-- A build that fails writes nothing but the length. -/
theorem build_error {w : Option Nat} {err : Error}
    (h : build m output capacity (some es) (some w₀) = (.error err, w, m')) :
    w = some 0 ∧ m' = m := by
  unfold build at h
  dsimp only at h
  split at h
  next =>
    cases h
    exact ⟨rfl, rfl⟩
  next =>
    split at h
    next =>
      cases h
      exact ⟨rfl, rfl⟩
    next => cases h

/-- What a successful build leaves in memory. -/
theorem build_isEncoding {w : Nat}
    (h : build m output capacity (some es) (some w₀) = (.ok (), some w, m')) :
    IsEncoding (m'.based output) w (es.map (BuildEntry.item m)) ∧
      (∀ a, a < output ∨ output + w ≤ a → m' a = m a) ∧
      Encodable (es.map (BuildEntry.item m)) := by
  obtain ⟨_, hb, hapart, hw, rfl⟩ := build_ok_iff.mp h
  cases hw
  obtain ⟨henc, hframe⟩ := emit_isEncoding rfl hb.entries hb.count hb.extent
    fun e he => (hapart e he).disjoint
  exact ⟨henc, hframe, hb.encodable⟩

end Builder

/-- The entry view of the capsule at `capsule` shows an item. -/
structure EntryView.Shows (m : Mem) (capsule : Nat) (ev : EntryView) (it : Item) : Prop where
  type : ev.type = it.type
  flags : ev.flags = it.flags
  version : ev.version = it.version
  alignment : ev.alignment = it.alignment
  size : ev.size = it.data.length
  data : ev.data = capsule + ev.offset
  bytes : m.bytes ev.data ev.size = it.data

/-- The parser hands out the items of an encoding, each at the least place
left for it. -/
theorem IsEncoding.getEntry {output n : Nat} {items : List Item} {it : Item}
    (h : IsEncoding (m.based output) n items) (hable : Encodable items) (hne : output ≠ 0)
    (hit : items[i]? = some it) (ev₀ : EntryView) :
    ∃ ev, (V2.getEntry (some (viewOf (m.based output) output n)) i (some ev₀)).val m =
        (.ok (), some ev) ∧ ev.Shows m output it ∧
      IsLeast {o | it.alignment ∣ o ∧ endBefore (m.based output) i ≤ o} ev.offset := by
  have hi : i < entryCount (m.based output) := by
    rw [h.header.count]
    exact (List.getElem?_eq_some_iff.mp hit).1
  obtain ⟨offset, _, hdirent, hbytes⟩ := h.slot hit
  have hpacked := h.packed hable.ok hi
  rw [Mem.bytes_based] at hbytes
  rw [hdirent] at hpacked
  refine ⟨_, getEntry_val_ok hne (h.wellFormed hable) hi, ?_, ?_⟩
  · rw [hdirent]
    exact ⟨rfl, rfl, rfl, rfl, rfl, rfl, hbytes⟩
  · rw [hdirent]
    exact hpacked

/-- What the builder emits the parser takes back, entry by entry and
packed; it fails only on entries the format or the output cannot hold; and
it writes nothing outside the capsule. -/
theorem build_roundTrip (m : Mem) (output capacity : Nat) (es : List BuildEntry) (w₀ : Nat) :
    (∀ w m', build m output capacity (some es) (some w₀) = (.ok (), some w, m') →
      (∀ n out, ((parse output n (some out)).val m').1 = .ok () ↔ n = w) ∧
      (∀ out, ∃ v, (parse output w (some out)).val m' = (.ok (), some v) ∧
        v.entryCount = es.length ∧
        ∀ i e, es[i]? = some e → ∀ ev₀, ∃ ev,
          (getEntry (some v) i (some ev₀)).val m' = (.ok (), some ev) ∧
          ev.type = e.type.toNat ∧ ev.flags = e.flags.toNat ∧ ev.version = e.version.toNat ∧
          ev.alignment = e.alignment.toNat ∧ ev.data = output + ev.offset ∧
          m'.bytes ev.data ev.size = m.bytes e.data e.size ∧
          IsLeast {o | e.alignment.toNat ∣ o ∧ endBefore (m'.based output) i ≤ o} ev.offset) ∧
      ∀ a, a < output ∨ output + w ≤ a → m' a = m a) ∧
    (∀ err w m', build m output capacity (some es) (some w₀) = (.error err, w, m') →
      w = some 0 ∧ m' = m) ∧
    (output ≠ 0 → (∀ e ∈ es, e.Apart output (builtSize m es)) →
      ((build m output capacity (some es) (some w₀)).1 = .ok () ↔ Buildable m capacity es)) := by
  refine ⟨?_, fun err w m' h => build_error h, ?_⟩
  · intro w m' h
    obtain ⟨henc, hframe, hable⟩ := build_isEncoding h
    have hne := (build_ok_iff.mp h).1
    have hwf := henc.wellFormed hable
    have hparse : ∀ out, (parse output w (some out)).val m' =
        (.ok (), some (viewOf (m'.based output) output w)) := fun out =>
      parse_val_ok hne hwf
    refine ⟨fun n out => ⟨fun hn => ?_, ?_⟩, fun out => ⟨_, hparse out, ?_, ?_⟩, hframe⟩
    · obtain ⟨_, hwf'⟩ := parse_wellFormed hn
      rw [← hwf'.total, hwf.total]
    · rintro rfl
      rw [hparse out]
    · change entryCount (m'.based output) = _
      rw [henc.header.count, List.length_map]
    · intro i e he ev₀
      have hit : (es.map (BuildEntry.item m))[i]? = some (e.item m) := by
        rw [List.getElem?_map, he, Option.map_some]
      obtain ⟨ev, hev, hshows, hleast⟩ := henc.getEntry hable hne hit ev₀
      exact ⟨ev, hev, hshows.type, hshows.flags, hshows.version, hshows.alignment, hshows.data,
        hshows.bytes, hleast⟩
  · intro hne hapart
    constructor
    · intro h
      obtain ⟨r, w, m', hr⟩ : ∃ r w m', build m output capacity (some es) (some w₀) = (r, w, m') :=
        ⟨_, _, _, rfl⟩
      rw [hr] at h
      cases h
      exact (build_ok_iff.mp hr).2.1
    · intro hb
      rw [build_ok_iff.mpr ⟨hne, hb, hapart, rfl, rfl⟩]

/-- Three payloads of 3, 5 and 8 bytes, and entries that want them at
multiples of 1, 16 and 64. -/
def samplePayloads : Mem := Mem.zeros.putWords 0x200 [0x504242, 0, 0x504030201, 0, 0x909090909090909]

def sampleEntries : List BuildEntry :=
  [⟨0x1001, 0, 1, 1, 0x200, 3⟩, ⟨0x1002, 5, 2, 16, 0x210, 5⟩, ⟨0x1001, 0, 1, 64, 0x220, 8⟩]

/-- The capsule of the three takes 264 bytes, and the second entry is found
in it; into 263 bytes nothing is built. -/
theorem build_roundTrip_sample :
    (∃ m' v ev, build samplePayloads 0x1000 264 (some sampleEntries) (some 9) = (.ok (), some 264, m') ∧
      (parse 0x1000 264 (some ⟨0, 0, 0, 0, 0⟩)).val m' = (.ok (), some v) ∧ v.entryCount = 3 ∧
      (getEntry (some v) 1 (some ⟨0, 0, 0, 0, 0, 0, 0, 0⟩)).val m' = (.ok (), some ev) ∧
      ev.type = 0x1002 ∧ ev.alignment = 16 ∧
      m'.bytes ev.data ev.size = samplePayloads.bytes 0x210 5) ∧
    build samplePayloads 0x1000 263 (some sampleEntries) (some 9) =
      (.error .capacity, some 0, samplePayloads) := by
  refine ⟨?_, ?_⟩
  · obtain ⟨r, w, m', hr⟩ : ∃ r w m', build samplePayloads 0x1000 264 (some sampleEntries) (some 9) =
      (r, w, m') := ⟨_, _, _, rfl⟩
    have hok : (build samplePayloads 0x1000 264 (some sampleEntries) (some 9)).1 = .ok () ∧
      (build samplePayloads 0x1000 264 (some sampleEntries) (some 9)).2.1 = some 264 := by decide +kernel
    rw [hr] at hok
    obtain ⟨rfl, rfl⟩ := hok
    obtain ⟨_, hparse, _⟩ := (build_roundTrip samplePayloads 0x1000 264 sampleEntries 9).1 264 m' hr
    obtain ⟨v, hv, hcount, hentry⟩ := hparse ⟨0, 0, 0, 0, 0⟩
    obtain ⟨ev, hev, htype, _, _, halign, _, hbytes, _⟩ := hentry 1 _ rfl ⟨0, 0, 0, 0, 0, 0, 0, 0⟩
    exact ⟨m', v, ev, hr, hv, hcount, hev, htype, halign, hbytes⟩
  · obtain ⟨r, w, m', hr⟩ : ∃ r w m', build samplePayloads 0x1000 263 (some sampleEntries) (some 9) =
      (r, w, m') := ⟨_, _, _, rfl⟩
    have herr : (build samplePayloads 0x1000 263 (some sampleEntries) (some 9)).1 = .error .capacity := by
      decide +kernel
    rw [hr] at herr ⊢
    obtain rfl := herr
    obtain ⟨rfl, rfl⟩ := (build_roundTrip samplePayloads 0x1000 263 sampleEntries 9).2.1 _ w m' hr
    rfl

end BearBoot.V2
