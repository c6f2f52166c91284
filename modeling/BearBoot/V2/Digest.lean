import BearBoot.Machine.Pack
import BearBoot.V2.Build

/-!
# The digest stream, as `v2/bbp_v2.c` computes it

`bbp_v2_digest` re-parses the view it is given and feeds a hash: a domain
separator, an envelope with the entry count, and for every entry a frame
of thirty-two bytes and then the payload. Where a payload lies is in none
of them.

`digest_stream_iff` is what a canonical stream is for: over accepted
capsules two streams are the same bytes exactly when the capsules hold the
same records in the same order. From left to right this is unique
decoding: a frame has a fixed length and names the length of what follows
it (`flatMap_framed_inj`).

Nothing is said about the hash itself; the stream is what it is fed.
-/

namespace BearBoot.V2

open Machine

/-- The domain separator. -/
def digestDomain : List UInt8 :=
  [0x42, 0x42, 0x50, 0x2d, 0x56, 0x32, 0x2d, 0x44, 0x49, 0x47, 0x45, 0x53, 0x54, 0, 0, 1]

/-- The envelope buffer. -/
def digestEnvelope (flags entryCount : Nat) : List UInt8 :=
  let b := Mem.zeros
  let b := put16 b 0 2
  let b := put16 b 2 0
  let b := put32 b 4 flags
  let b := put32 b 8 entryCount
  b.bytes 0 16

/-- The frame buffer of one entry. -/
def digestFrame (type flags version size : Nat) : List UInt8 :=
  let b := Mem.zeros
  let b := put64 b 0 type
  let b := put32 b 8 flags
  let b := put16 b 12 version
  let b := put64 b 16 size
  b.bytes 0 32

/-- One turn of the entry loop. The status of `bbp_v2_get_entry` is
dropped, and `entry` starts uninitialised. -/
def digestEntry {σ : Type} (checked : View) (update : σ → List UInt8 → σ) (i : Nat) (state : σ) :
    Traced Event σ := do
  let (_, entry) ← getEntry (some checked) i (some ⟨0, 0, 0, 0, 0, 0, 0, 0⟩)
  match entry with
  | none => pure state
  | some entry => do
    let data ← loadBytes entry.data entry.size
    pure (update (update state (digestFrame entry.type entry.flags entry.version entry.size)) data)

/-- `bbp_v2_digest`: the status and the state of the callback. -/
def digest {σ : Type} (view : Option View) (update : Option (σ → List UInt8 → σ)) (state : σ) :
    Traced Event (Except Error Unit × σ) :=
  match view, update with
  | some view, some update =>
    if view.data = 0 then pure (.error .null, state)
    else do
      let (status, checked) ← parse view.data view.totalSize (some ⟨0, 0, 0, 0, 0⟩)
      match status, checked with
      | .error e, _ => pure (.error e, state)
      | .ok _, none => pure (.ok (), state)
      | .ok _, some checked => do
        let state := update state digestDomain
        let state := update state (digestEnvelope checked.flags checked.entryCount)
        let state ← forUpTo (digestEntry checked update) checked.entryCount state
        pure (.ok (), state)
  | _, _ => pure (.error .null, state)

/-! ## What is fed -/

/-- What a directory entry is about, wherever it is. -/
structure Record where
  type : Nat
  flags : Nat
  version : Nat
  data : List UInt8

def record (c : Mem) (i : Nat) : Record :=
  ⟨(dirent c i).type, (dirent c i).flags, (dirent c i).version, payload c (dirent c i)⟩

/-- The records of a capsule, in directory order. -/
def records (c : Mem) : List Record := (List.range (entryCount c)).map (record c)

def Record.frame (r : Record) : List UInt8 := digestFrame r.type r.flags r.version r.data.length

section Feed

variable {σ : Type} {m : Mem} {capsule n : Nat}

theorem digestEntry_val (hne : capsule ≠ 0) (h : WellFormed (m.based capsule) n)
    (update : σ → List UInt8 → σ) {i : Nat} (hi : i < entryCount (m.based capsule)) (state : σ) :
    (digestEntry (viewOf (m.based capsule) capsule n) update i state).val m =
      update (update state (record (m.based capsule) i).frame)
        (record (m.based capsule) i).data := by
  unfold digestEntry
  rw [Traced.val_bind, getEntry_val_ok hne h hi]
  unfold Record.frame record payload
  rw [Mem.bytes_length, Mem.bytes_based]
  rfl

/-- The callback sees the domain, the envelope, and every record framed. -/
theorem digest_val (hne : capsule ≠ 0) (h : WellFormed (m.based capsule) n)
    (update : σ → List UInt8 → σ) (state : σ) :
    (digest (some (viewOf (m.based capsule) capsule n)) (some update) state).val m =
      (.ok (), (records (m.based capsule)).foldl (fun st r => update (update st r.frame) r.data)
        (update (update state digestDomain)
          (digestEnvelope 0 (records (m.based capsule)).length))) := by
  have hdata : (viewOf (m.based capsule) capsule n).data ≠ 0 := hne
  have hcount : (records (m.based capsule)).length = entryCount (m.based capsule) := by
    rw [records, List.length_map, List.length_range]
  have hparse : (parse (viewOf (m.based capsule) capsule n).data
      (viewOf (m.based capsule) capsule n).totalSize (some ⟨0, 0, 0, 0, 0⟩)).val m =
      (.ok (), some (viewOf (m.based capsule) capsule n)) := parse_val_ok hne h
  unfold digest
  dsimp only
  rw [if_neg hdata, Traced.val_bind, hparse]
  change ((forUpTo (digestEntry _ update) (entryCount (m.based capsule)) (update (update state
    digestDomain) (digestEnvelope (get32 (m.based capsule) 16) (entryCount (m.based capsule))))) >>=
      fun state => pure (.ok (), state) : Traced Event (Except Error Unit × σ)).val m = _
  rw [h.flags, Traced.val_bind, Traced.val_pure, Traced.forUpTo_val, hcount, records,
    List.foldl_map]
  congr 1
  refine List.foldl_ext _ _ _ fun st i hi => ?_
  exact digestEntry_val hne h update (List.mem_range.mp hi) st

end Feed

/-! ## Unique decoding -/

/-- Lists of framed items are determined by their concatenation, when a
frame has a fixed length and names the length of its body. -/
theorem flatMap_framed_inj {α : Type} {frame body : α → List UInt8} {k : Nat} (hk : k ≠ 0)
    (hlen : ∀ a, (frame a).length = k) {xs ys : List α}
    (hnames : ∀ x ∈ xs, ∀ y ∈ ys, frame x = frame y → (body x).length = (body y).length)
    (h : xs.flatMap (fun a => frame a ++ body a) = ys.flatMap fun a => frame a ++ body a) :
    List.Forall₂ (fun x y => frame x = frame y ∧ body x = body y) xs ys := by
  have hne : ∀ zs : List α, ∀ z ∈ zs.map (fun a => frame a ++ body a), z ≠ [] := by
    intro zs z hz hnil
    obtain ⟨a, -, rfl⟩ := List.mem_map.mp hz
    have hzero := hlen a
    rw [(List.append_eq_nil_iff.mp hnil).1] at hzero
    exact hk hzero.symm
  have hitems : xs.map (fun a => frame a ++ body a) = ys.map fun a => frame a ++ body a := by
    refine flatten_inj (hne xs) (hne ys) ?_ h
    intro z hz w hw r r' heq
    obtain ⟨x, hx, rfl⟩ := List.mem_map.mp hz
    obtain ⟨y, hy, rfl⟩ := List.mem_map.mp hw
    rw [List.append_assoc, List.append_assoc] at heq
    obtain ⟨hframe, -⟩ := List.append_inj heq (by rw [hlen, hlen])
    rw [List.length_append, List.length_append, hlen, hlen, hnames x hx y hy hframe]
  have hall : List.Forall₂ (fun x y => frame x ++ body x = frame y ++ body y) xs ys := by
    have hsame : List.Forall₂ Eq (xs.map fun a => frame a ++ body a) (ys.map fun a => frame a ++ body a) := by
      rw [hitems]
      exact List.forall₂_refl _
    exact List.forall₂_map_right_iff.mp (List.forall₂_map_left_iff.mp hsame)
  exact hall.imp fun x y heq => List.append_inj heq (by rw [hlen, hlen])

/-- A buffer of `k` bytes determines its fields. -/
theorem field_of_bytes {b b' : Mem} {k o w : Nat} (h : b.bytes 0 k = b'.bytes 0 k)
    (how : o + w ≤ k) : b.getLE o w = b'.getLE o w := by
  refine Mem.getLE_congr fun i hi => ?_
  have := Mem.bytes_eq_iff.mp h (o + i) (by omega)
  rwa [Nat.zero_add] at this

/-- Values that fit the fields of a frame. -/
structure Record.Fits (r : Record) : Prop where
  type : r.type < 2 ^ 64
  flags : r.flags < 2 ^ 32
  version : r.version < 2 ^ 16
  size : r.data.length < 2 ^ 64

theorem Record.frame_inj {r r' : Record} (hr : r.Fits) (hr' : r'.Fits) (h : r.frame = r'.frame) :
    r.type = r'.type ∧ r.flags = r'.flags ∧ r.version = r'.version ∧
      r.data.length = r'.data.length := by
  obtain ⟨htype, hflags, hversion, hsize⟩ := hr
  obtain ⟨htype', hflags', hversion', hsize'⟩ := hr'
  unfold Record.frame digestFrame at h
  have f0 := field_of_bytes (o := 0) (w := 8) h (by decide)
  have f8 := field_of_bytes (o := 8) (w := 4) h (by decide)
  have f12 := field_of_bytes (o := 12) (w := 2) h (by decide)
  have f16 := field_of_bytes (o := 16) (w := 8) h (by decide)
  simp (disch := omega) only [put64, put32, put16, Mem.getLE_putLE_frame, Mem.getLE_putLE]
    at f0 f8 f12 f16
  exact ⟨f0, f8, f12, f16⟩

theorem digestEnvelope_inj {count count' : Nat} (hc : count < 2 ^ 32) (hc' : count' < 2 ^ 32)
    (h : digestEnvelope 0 count = digestEnvelope 0 count') : count = count' := by
  unfold digestEnvelope at h
  have f8 := field_of_bytes (o := 8) (w := 4) h (by decide)
  simp (disch := omega) only [put32, Mem.getLE_putLE] at f8
  exact f8

section Stream

variable {m : Mem} {capsule n : Nat}

theorem records_fit {c : Mem} (h : WellFormed c n) : ∀ r ∈ records c, r.Fits := by
  intro r hr
  obtain ⟨i, hi, rfl⟩ := List.mem_map.mp hr
  have hin := (h.entries i (List.mem_range.mp hi)).inside
  have hhigh := h.high
  unfold maxExtent at hhigh
  refine ⟨get64_lt _ _, get32_lt _ _, get16_lt _ _, ?_⟩
  change (c.bytes _ _).length < _
  rw [Mem.bytes_length]
  omega

/-- What a callback that concatenates is left with. -/
theorem digest_stream (hne : capsule ≠ 0) (h : WellFormed (m.based capsule) n) :
    (digest (some (viewOf (m.based capsule) capsule n)) (some (· ++ ·)) []).val m =
      (.ok (), digestDomain ++ (digestEnvelope 0 (records (m.based capsule)).length ++
        (records (m.based capsule)).flatMap fun r => r.frame ++ r.data)) := by
  have hfold : ∀ (rs : List Record) (st : List UInt8),
      rs.foldl (fun st r => st ++ r.frame ++ r.data) st =
        st ++ rs.flatMap fun r => r.frame ++ r.data := by
    intro rs
    induction rs with
    | nil => intro st; rw [List.foldl_nil, List.flatMap_nil, List.append_nil]
    | cons r rs ih =>
      intro st
      rw [List.foldl_cons, ih, List.flatMap_cons, List.append_assoc, List.append_assoc,
        List.append_assoc]
  rw [digest_val hne h, hfold, List.nil_append, List.append_assoc]

end Stream

/-- Streams of framed records are equal exactly when the records are. -/
theorem stream_inj {rs rs' : List Record} (hfit : ∀ r ∈ rs, r.Fits) (hfit' : ∀ r ∈ rs', r.Fits)
    (hmany : rs.length < 2 ^ 32) (hmany' : rs'.length < 2 ^ 32)
    (h : digestDomain ++ (digestEnvelope 0 rs.length ++ rs.flatMap fun r => r.frame ++ r.data) =
      digestDomain ++ (digestEnvelope 0 rs'.length ++ rs'.flatMap fun r => r.frame ++ r.data)) :
    rs = rs' := by
  obtain ⟨henvelope, hframes⟩ := List.append_inj (List.append_cancel_left h)
    (show (Mem.bytes _ 0 16).length = (Mem.bytes _ 0 16).length by
      rw [Mem.bytes_length, Mem.bytes_length])
  have hcount := digestEnvelope_inj hmany hmany' henvelope
  have hall : List.Forall₂ (fun r r' : Record => r.frame = r'.frame ∧ r.data = r'.data) rs rs' :=
    flatMap_framed_inj (by decide) (fun r => Mem.bytes_length _ 0 32)
      (fun r hr r' hr' hrr => (Record.frame_inj (hfit r hr) (hfit' r' hr') hrr).2.2.2) hframes
  have hsame : List.Forall₂ (fun r r' : Record => r = r') rs rs' := by
    refine List.forall₂_iff_get.mpr ⟨hcount, fun i hi hi' => ?_⟩
    obtain ⟨hframe, hdata⟩ := (List.forall₂_iff_get.mp hall).2 i hi hi'
    obtain ⟨htype, hflags, hversion, _⟩ := Record.frame_inj (hfit _ (List.get_mem rs ⟨i, hi⟩))
      (hfit' _ (List.get_mem rs' ⟨i, hi'⟩)) hframe
    cases hr : rs.get ⟨i, hi⟩
    cases hr' : rs'.get ⟨i, hi'⟩
    rw [hr, hr'] at hdata htype hflags hversion
    cases hdata
    cases htype
    cases hflags
    cases hversion
    rfl
  exact List.forall₂_eq_eq_eq ▸ hsame

/-- The stream is the same exactly when the records are, whatever the
layout. -/
theorem digest_stream_iff (m m' : Mem) (capsule capsule' n n' : Nat) (out v v' : View)
    (hv : (parse capsule n (some out)).val m = (.ok (), some v))
    (hv' : (parse capsule' n' (some out)).val m' = (.ok (), some v')) :
    ((digest (some v) (some (· ++ ·)) []).val m).1 = .ok () ∧
    ((digest (some v') (some (· ++ ·)) []).val m').1 = .ok () ∧
    (((digest (some v) (some (· ++ ·)) []).val m).2 =
        ((digest (some v') (some (· ++ ·)) []).val m').2 ↔
      records (m.based capsule) = records (m'.based capsule')) := by
  obtain ⟨hne, hwf⟩ := parse_wellFormed (congrArg Prod.fst hv)
  obtain ⟨hne', hwf'⟩ := parse_wellFormed (congrArg Prod.fst hv')
  rw [parse_val_ok hne hwf] at hv
  rw [parse_val_ok hne' hwf'] at hv'
  cases hv
  cases hv'
  have hmany : ∀ {c : Mem} {k : Nat}, WellFormed c k → (records c).length < 2 ^ 32 := by
    intro c k h
    have := h.count
    rw [records, List.length_map, List.length_range]
    omega
  rw [digest_stream hne hwf, digest_stream hne' hwf']
  refine ⟨rfl, rfl, fun h => ?_, fun h => by rw [h]⟩
  exact stream_inj (records_fit hwf) (records_fit hwf') (hmany hwf) (hmany hwf') h

/-! ## One payload, two layouts -/

def Item.record (it : Item) : Record := ⟨it.type, it.flags, it.version, it.data⟩

/-- The records of an encoding are those of its items: alignment and place
are gone. -/
theorem IsEncoding.records_eq {c : Mem} {n : Nat} {items : List Item} (h : IsEncoding c n items) :
    records c = items.map Item.record := by
  refine List.ext_getElem? fun i => ?_
  by_cases hi : i < entryCount c
  · obtain ⟨s, hs, heq⟩ := h.exists_slot hi
    have hitem : items[i]? = some s.item := by
      have hget := congrArg (fun l => l[i]?) (slots_item (bodyStart items) items)
      rw [List.getElem?_map, hs] at hget
      exact hget.symm
    rw [records, List.getElem?_map, List.getElem?_map, List.getElem?_range hi, hitem]
    refine congrArg some ?_
    rw [record, heq]
    unfold Slot.dirent Item.record payload
    dsimp only
    rw [h.payloads s (List.mem_of_getElem? hs)]
  · have hi' : ¬ i < items.length := by
      rw [← h.header.count]
      exact hi
    rw [List.getElem?_eq_none (by rw [records, List.length_map, List.length_range]; omega),
      List.getElem?_eq_none (by rw [List.length_map]; omega)]

/-- A payload of three bytes, to be placed at a multiple of `alignment`. -/
def sampleEntry (alignment : UInt32) : BuildEntry := ⟨7, 1, 2, alignment, 64, 3⟩

/-- The capsule the builder makes of it at address 4096. -/
def sampleCapsule (alignment : UInt32) (n : Nat) : Mem :=
  emit Mem.zeros 4096 n [sampleEntry alignment]

theorem sampleCapsule_isEncoding {alignment : UInt32} {n : Nat}
    (h : buildSize 4096 4096 [sampleEntry alignment] = .ok n) :
    IsEncoding ((sampleCapsule alignment n).based 4096) n
        [(sampleEntry alignment).item Mem.zeros] ∧
      WellFormed ((sampleCapsule alignment n).based 4096) n := by
  obtain ⟨hb, hapart, hn⟩ := (buildSize_ok_iff (m := Mem.zeros)).mp h
  have hbuild : build Mem.zeros 4096 4096 (some [sampleEntry alignment]) (some 0) =
      (.ok (), some n, sampleCapsule alignment n) :=
    build_ok_iff.mpr ⟨by decide, hb, hapart, by rw [hn], by rw [hn]; rfl⟩
  obtain ⟨henc, _, hable⟩ := build_isEncoding hbuild
  exact ⟨henc, henc.wellFormed hable⟩

/-- Packed into 115 bytes or spread over 131, the stream is the same. -/
theorem digest_stream_relayout :
    ((digest (some (viewOf ((sampleCapsule 1 115).based 4096) 4096 115)) (some (· ++ ·)) []).val
        (sampleCapsule 1 115)).2 =
      ((digest (some (viewOf ((sampleCapsule 128 131).based 4096) 4096 131)) (some (· ++ ·)) []).val
        (sampleCapsule 128 131)).2 := by
  obtain ⟨henc, hwf⟩ := sampleCapsule_isEncoding (show buildSize 4096 4096 [sampleEntry 1] = .ok 115
    by decide)
  obtain ⟨henc', hwf'⟩ := sampleCapsule_isEncoding
    (show buildSize 4096 4096 [sampleEntry 128] = .ok 131 by decide)
  refine (digest_stream_iff (sampleCapsule 1 115) (sampleCapsule 128 131) 4096 4096 115 131
    ⟨0, 0, 0, 0, 0⟩ _ _ (parse_val_ok (by decide) hwf) (parse_val_ok (by decide) hwf')).2.2.mpr ?_
  rw [henc.records_eq, henc'.records_eq]
  rfl

end BearBoot.V2
