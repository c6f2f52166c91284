import BearBoot.Machine.Bits
import BearBoot.V2.Capsule

/-!
# The canonical encoding

Among the capsules that hold given items there is one the builder writes:
directory right behind the header, payloads in order, each at the first
multiple of its alignment past what is there already, zeros between.
`slots` is that layout, `IsEncoding c n items` says that the `n` bytes of
`c` are that capsule, byte for byte and without naming a program.

Three results make it usable:

- `IsEncoding.wellFormed`: an encoding of items within the limits is a
  capsule, so every parser takes it;
- `Laid.dirent_eq`: what a parser finds in it are the items, each
  at the least offset that is left for it (`Laid.packed`);
- `IsEncoding.unique`: two encodings of the same items are the same bytes.

A program may also patch a capsule it has built: `Laid` is the encoding up
to its checksum, and `Laid.replace` says that a payload overwritten in
place, with its checksum in the directory, is the layout of the new items.

Which program writes it is a matter for the module about that program.
-/

namespace BearBoot.V2

open Machine

variable {n i j x : Nat}

/-- What a directory entry is about. -/
structure Item where
  type : Nat
  flags : Nat
  version : Nat
  alignment : Nat
  data : List UInt8

/-- An item that fits the directory's fields. -/
structure Item.Ok (it : Item) : Prop where
  power : ∃ k, it.alignment = 2 ^ k
  small : it.alignment ≤ 4096
  nonempty : it.data ≠ []

/-- An item with its place in the capsule. -/
structure Slot where
  offset : Nat
  item : Item

def Slot.span (s : Slot) : Span := ⟨s.offset, s.item.data.length⟩

/-- The directory entry of a placed item. -/
def Slot.dirent (s : Slot) : Dirent :=
  ⟨s.item.type, s.item.flags, s.item.version, 0, s.offset, s.item.data.length, crc64 s.item.data,
    s.item.alignment, 0⟩

/-- The items placed one behind the other from the cursor on. -/
def slots : (cursor : Nat) → List Item → List Slot
  | _, [] => []
  | cursor, it :: rest =>
    ⟨roundUp cursor it.alignment, it⟩ :: slots (roundUp cursor it.alignment + it.data.length) rest

/-- Where the placement ends. -/
def finish : (cursor : Nat) → List Item → Nat
  | cursor, [] => cursor
  | cursor, it :: rest => finish (roundUp cursor it.alignment + it.data.length) rest

/-- The payload bytes of the items. -/
def weight (items : List Item) : Nat := (items.map fun it => it.data.length).sum

/-- The first byte behind the directory. -/
def bodyStart (items : List Item) : Nat := 64 + items.length * 48

/-- Items a capsule can hold. -/
structure Encodable (items : List Item) : Prop where
  ok : ∀ it ∈ items, it.Ok
  count : items.length ≤ 1024
  extent : finish (bodyStart items) items ≤ maxExtent
  work : finish (bodyStart items) items + weight items ≤ maxCrcWork

/-- The header of a capsule of `n` bytes whose directory of `count`
entries stands right behind it, up to its checksum. -/
structure HeaderIs (c : Mem) (n count : Nat) : Prop where
  magic : c.bytes 0 8 = V2.magic
  major : get16 c 8 = 2
  minor : get16 c 10 = 0
  headerSize : get16 c 12 = 64
  direntSize : get16 c 14 = 48
  flags : get32 c 16 = 0
  count : entryCount c = count
  total : totalSize c = n
  directory : directoryOffset c = 64
  reserved0 : get64 c 48 = 0
  reserved1 : get64 c 56 = 0

/-- The items are laid out in the `n` bytes of `c`, up to the checksum. -/
structure Laid (c : Mem) (n : Nat) (items : List Item) : Prop where
  size : n = finish (bodyStart items) items
  header : HeaderIs c n items.length
  entries : (List.range items.length).map (fun i => direntAt c (64 + i * 48)) =
    (slots (bodyStart items) items).map Slot.dirent
  payloads : ∀ s ∈ slots (bodyStart items) items,
    c.bytes s.offset s.item.data.length = s.item.data
  gaps : ∀ x < n, bodyStart items ≤ x →
    (∀ s ∈ slots (bodyStart items) items, ¬ s.span.Covers x) → c x = 0

/-- The `n` bytes of `c` are the encoding of the items. -/
structure IsEncoding (c : Mem) (n : Nat) (items : List Item) : Prop extends Laid c n items where
  crc : crcSpliced c 0 n 40 = get64 c 40

/-- Where the directory ends, or the payload before the `i`-th. -/
def endBefore (c : Mem) : (i : Nat) → Nat
  | 0 => (directorySpan c).stop
  | i + 1 => (dirent c i).span.stop

/-- A header is its bytes, the checksum's excepted. -/
theorem HeaderIs.congr {c c' : Mem} {count : Nat} (h : HeaderIs c n count)
    (hc : ∀ i < 64, ¬ (40 ≤ i ∧ i < 48) → c' i = c i) : HeaderIs c' n count := by
  have field : ∀ o w, o + w ≤ 40 ∨ (48 ≤ o ∧ o + w ≤ 64) → c'.getLE o w = c.getLE o w :=
    fun o w how => Mem.getLE_congr fun i hi => hc (o + i) (by omega) (by omega)
  refine ⟨?_, ?_, ?_, ?_, ?_, ?_, ?_, ?_, ?_, ?_, ?_⟩
  · rw [← h.magic]
    exact Mem.bytes_congr fun i hi => hc (0 + i) (by omega) (by omega)
  · exact (field 8 2 (by decide)).trans h.major
  · exact (field 10 2 (by decide)).trans h.minor
  · exact (field 12 2 (by decide)).trans h.headerSize
  · exact (field 14 2 (by decide)).trans h.direntSize
  · exact (field 16 4 (by decide)).trans h.flags
  · exact (field 20 4 (by decide)).trans h.count
  · exact (field 24 8 (by decide)).trans h.total
  · exact (field 32 8 (by decide)).trans h.directory
  · exact (field 48 8 (by decide)).trans h.reserved0
  · exact (field 56 8 (by decide)).trans h.reserved1

/-! ## The layout -/

variable {s : Slot}

section Layout

variable {cursor : Nat} {items : List Item}

theorem slots_length (cursor : Nat) (items : List Item) :
    (slots cursor items).length = items.length := by
  induction items generalizing cursor with
  | nil => rfl
  | cons it rest ih => rw [slots, List.length_cons, ih, List.length_cons]

theorem slots_item (cursor : Nat) (items : List Item) :
    (slots cursor items).map Slot.item = items := by
  induction items generalizing cursor with
  | nil => rfl
  | cons it rest ih => rw [slots, List.map_cons, ih]

theorem le_finish (hok : ∀ it ∈ items, it.Ok) : cursor ≤ finish cursor items := by
  induction items generalizing cursor with
  | nil => exact Nat.le_refl _
  | cons it rest ih =>
    obtain ⟨k, hk⟩ := (hok it List.mem_cons_self).power
    have hup := le_roundUp cursor (show 0 < it.alignment by rw [hk]; exact Nat.two_pow_pos k)
    have hrest : roundUp cursor it.alignment + it.data.length ≤
        finish (roundUp cursor it.alignment + it.data.length) rest :=
      ih fun x hx => hok x (List.mem_cons_of_mem _ hx)
    rw [finish]
    omega

/-- Every slot is past the cursor, aligned, and before the end. -/
theorem slot_bounds (hok : ∀ it ∈ items, it.Ok) (hs : s ∈ slots cursor items) :
    s.item ∈ items ∧ cursor ≤ s.offset ∧ s.item.alignment ∣ s.offset ∧
      s.span.stop ≤ finish cursor items := by
  induction items generalizing cursor with
  | nil => cases hs
  | cons it rest ih =>
    obtain ⟨k, hk⟩ := (hok it List.mem_cons_self).power
    have hup := le_roundUp cursor (show 0 < it.alignment by rw [hk]; exact Nat.two_pow_pos k)
    have hrest : ∀ x ∈ rest, x.Ok := fun x hx => hok x (List.mem_cons_of_mem _ hx)
    rw [slots] at hs
    rcases List.mem_cons.mp hs with rfl | hs
    · exact ⟨List.mem_cons_self, hup, dvd_roundUp _ _, le_finish hrest⟩
    · obtain ⟨hmem, hle, hdvd, hstop⟩ := ih hrest hs
      exact ⟨List.mem_cons_of_mem _ hmem, by omega, hdvd, hstop⟩

theorem slots_ordered (hok : ∀ it ∈ items, it.Ok) :
    (slots cursor items).Pairwise fun s t => s.span.stop ≤ t.span.start := by
  induction items generalizing cursor with
  | nil => exact List.Pairwise.nil
  | cons it rest ih =>
    have hrest : ∀ x ∈ rest, x.Ok := fun x hx => hok x (List.mem_cons_of_mem _ hx)
    rw [slots]
    refine List.Pairwise.cons (fun t ht => ?_) (ih hrest)
    exact (slot_bounds hrest ht).2.1

theorem slots_first (hs : (slots cursor items)[0]? = some s) :
    s.offset = roundUp cursor s.item.alignment := by
  cases items with
  | nil => cases hs
  | cons it rest =>
    cases hs
    rfl

theorem slots_next {r : Slot} (hr : (slots cursor items)[i]? = some r)
    (hs : (slots cursor items)[i + 1]? = some s) :
    s.offset = roundUp r.span.stop s.item.alignment := by
  induction items generalizing cursor i with
  | nil => cases hs
  | cons it rest ih =>
    rw [slots, List.getElem?_cons_succ] at hs
    rw [slots] at hr
    cases i with
    | zero =>
      cases hr
      exact slots_first hs
    | succ i => exact ih hr hs

theorem exists_slot_of_lt (hj : j < items.length) (cursor : Nat) :
    ∃ s, (slots cursor items)[j]? = some s ∧ items[j]? = some s.item := by
  have hj' : j < (slots cursor items).length := by rwa [slots_length]
  have hitem := congrArg (fun l => l[j]?) (slots_item cursor items)
  simp only [List.getElem?_map, List.getElem?_eq_getElem hj', Option.map_some] at hitem
  exact ⟨_, List.getElem?_eq_getElem hj', hitem.symm⟩

theorem weight_eq (cursor : Nat) (items : List Item) :
    weight items = ((slots cursor items).map fun s => s.item.data.length).sum := by
  rw [weight, ← slots_item cursor items, List.map_map]
  rw [slots_item]
  rfl

end Layout

/-! ## An encoding is a capsule -/

section Capsule

variable {c : Mem} {n : Nat} {items : List Item}

namespace Laid

theorem dirent_at (h : Laid c n items) (i : Nat) :
    dirent c i = direntAt c (64 + i * 48) := by
  rw [dirent, h.header.directory]

/-- The `i`-th directory entry is the `i`-th slot's. -/
theorem dirent_eq (h : Laid c n items)
    (hs : (slots (bodyStart items) items)[i]? = some s) : dirent c i = s.dirent := by
  have hi : i < items.length := by
    rw [← slots_length (bodyStart items) items]
    exact (List.getElem?_eq_some_iff.mp hs).1
  have hget := congrArg (fun l => l[i]?) h.entries
  rw [h.dirent_at]
  simpa [List.getElem?_map, List.getElem?_range hi, hs] using hget

/-- And every directory entry is some slot's. -/
theorem exists_slot (h : Laid c n items) (hi : i < entryCount c) :
    ∃ s, (slots (bodyStart items) items)[i]? = some s ∧ dirent c i = s.dirent := by
  rw [h.header.count, ← slots_length (bodyStart items) items] at hi
  exact ⟨_, List.getElem?_eq_getElem hi, h.dirent_eq (List.getElem?_eq_getElem hi)⟩

/-- An item stands in the capsule, described by its directory entry. -/
theorem slot (h : Laid c n items) {it : Item} (hit : items[i]? = some it) :
    ∃ offset, (slots (bodyStart items) items)[i]? = some ⟨offset, it⟩ ∧
      dirent c i = Slot.dirent ⟨offset, it⟩ ∧ c.bytes offset it.data.length = it.data := by
  obtain ⟨s, hs, hitem⟩ := exists_slot_of_lt (List.getElem?_eq_some_iff.mp hit).1 (bodyStart items)
  cases hitem.symm.trans hit
  exact ⟨s.offset, hs, h.dirent_eq hs, h.payloads s (List.mem_of_getElem? hs)⟩

theorem dirents_eq (h : Laid c n items) :
    (List.range (entryCount c)).map (dirent c) =
      (slots (bodyStart items) items).map Slot.dirent := by
  rw [h.header.count, ← h.entries]
  exact List.map_congr_left fun i _ => h.dirent_at i

theorem payloads_eq (h : Laid c n items) :
    V2.payloads c = (slots (bodyStart items) items).map Slot.span := by
  have hspan := congrArg (List.map Dirent.span) h.dirents_eq
  rw [List.map_map, List.map_map] at hspan
  exact hspan

theorem payloadBytes_eq (h : Laid c n items) :
    payloadBytes c (entryCount c) = weight items := by
  have hsize := congrArg (List.map Dirent.size) h.dirents_eq
  rw [List.map_map, List.map_map] at hsize
  rw [weight_eq (bodyStart items) items]
  exact congrArg List.sum hsize

theorem dirent_ok (h : Laid c n items) (hok : ∀ it ∈ items, it.Ok)
    (hi : i < entryCount c) : (dirent c i).Ok n := by
  obtain ⟨s, hs, heq⟩ := h.exists_slot hi
  obtain ⟨hmem, _, hdvd, hstop⟩ := slot_bounds hok (List.mem_of_getElem? hs)
  have hitem := hok _ hmem
  rw [heq]
  refine ⟨rfl, rfl, hitem.power, hitem.small, hdvd, ?_, ?_⟩
  · exact fun hzero => hitem.nonempty (List.length_eq_zero_iff.mp hzero)
  · rw [h.size]
    exact hstop

/-- Each payload is at the least offset its alignment allows behind what
comes before it. -/
theorem packed (h : Laid c n items) (hok : ∀ it ∈ items, it.Ok) (hi : i < entryCount c) :
    IsLeast {o | (dirent c i).alignment ∣ o ∧ endBefore c i ≤ o} (dirent c i).offset := by
  obtain ⟨s, hs, heq⟩ := h.exists_slot hi
  obtain ⟨k, hk⟩ := (hok _ (slot_bounds hok (List.mem_of_getElem? hs)).1).power
  have hpos : 0 < s.item.alignment := by
    rw [hk]
    exact Nat.two_pow_pos k
  have hplace : s.offset = roundUp (endBefore c i) s.item.alignment := by
    cases i with
    | zero =>
      have hdir : endBefore c 0 = bodyStart items := by
        rw [endBefore, directorySpan, h.header.directory, h.header.count]
        rfl
      rw [hdir]
      exact slots_first hs
    | succ i =>
      obtain ⟨r, hr, hprev⟩ := h.exists_slot (Nat.lt_of_succ_lt hi)
      rw [endBefore, hprev]
      exact slots_next hr hs
  rw [heq]
  change IsLeast {o | s.item.alignment ∣ o ∧ _ ≤ o} s.offset
  rw [hplace]
  exact roundUp_isLeast _ hpos

theorem spans_disjoint (h : Laid c n items) (hok : ∀ it ∈ items, it.Ok) :
    (spans c).Pairwise Span.Disjoint := by
  have hbehind : ∀ s ∈ (slots (bodyStart items) items).map Slot.span,
      bodyStart items ≤ s.start := by
    intro s hs
    obtain ⟨t, ht, rfl⟩ := List.mem_map.mp hs
    exact (slot_bounds hok ht).2.1
  have hdir : directorySpan c = ⟨64, items.length * 48⟩ := by
    rw [directorySpan, h.header.directory, h.header.count]
  unfold spans
  rw [h.payloads_eq, hdir]
  refine List.Pairwise.cons ?_ (List.Pairwise.cons ?_ ?_)
  · intro s hs
    rcases List.mem_cons.mp hs with rfl | hs
    · exact Or.inl (Nat.le_refl 64)
    · have := hbehind s hs
      unfold bodyStart at this
      refine Or.inl ?_
      change 64 ≤ s.start
      omega
  · intro s hs
    exact Or.inl (hbehind s hs)
  · rw [List.pairwise_map]
    exact (slots_ordered hok).imp fun hst => Or.inl hst

/-- A layout is its bytes, the checksum's excepted. -/
theorem congr {c' : Mem} (h : Laid c n items) (hok : ∀ it ∈ items, it.Ok)
    (hc : ∀ x < n, ¬ (40 ≤ x ∧ x < 48) → c' x = c x) : Laid c' n items := by
  have hlow : 64 + items.length * 48 ≤ n := by
    rw [h.size]
    exact le_finish hok
  have hslot : ∀ s ∈ slots (bodyStart items) items,
      64 ≤ s.offset ∧ s.offset + s.item.data.length ≤ n := by
    intro s hs
    obtain ⟨_, hstart, _, hstop⟩ := slot_bounds hok hs
    rw [← h.size] at hstop
    unfold bodyStart at hstart
    exact ⟨by omega, hstop⟩
  refine ⟨h.size, h.header.congr fun i hi hni => hc i (by omega) hni, ?_, ?_, ?_⟩
  · rw [← h.entries]
    refine List.map_congr_left fun i hi => direntAt_congr fun k hk => ?_
    have hi := List.mem_range.mp hi
    exact hc _ (by omega) (by omega)
  · intro s hs
    obtain ⟨hlo, hhi⟩ := hslot s hs
    refine Eq.trans (Mem.bytes_congr fun k hk => ?_) (h.payloads s hs)
    exact hc _ (by omega) (by omega)
  · intro x hx hstart hnone
    have h64 : 64 ≤ x := Nat.le_trans (Nat.le_add_right _ _) hstart
    rw [hc x hx (by omega)]
    exact h.gaps x hx hstart hnone

end Laid

theorem IsEncoding.wellFormed (h : IsEncoding c n items) (hok : Encodable items) : WellFormed c n := by
  have hlow : bodyStart items ≤ n := by
    rw [h.size]
    exact le_finish hok.ok
  have hsize := h.size
  have hhigh := hok.extent
  have hwork := hok.work
  refine
    { low := by unfold bodyStart at hlow; omega
      high := by omega
      magic := h.header.magic
      major := h.header.major
      minor := h.header.minor
      headerSize := h.header.headerSize
      direntSize := h.header.direntSize
      flags := h.header.flags
      reserved0 := h.header.reserved0
      reserved1 := h.header.reserved1
      total := h.header.total
      count := h.header.count ▸ hok.count
      empty := ?_
      dirAligned := by rw [h.header.directory]; decide
      dirStart := by rw [h.header.directory]
      dirEnd := by rw [h.header.directory, h.header.count]; exact hlow
      entries := fun i hi => h.dirent_ok hok.ok hi
      disjoint := h.spans_disjoint hok.ok
      padding := ?_
      work := by rw [h.payloadBytes_eq]; omega
      crc := h.crc
      payloadCrc := ?_ }
  · intro hzero
    rw [h.header.count, List.length_eq_zero_iff] at hzero
    rw [hzero] at hsize
    exact ⟨h.header.directory, hsize⟩
  · intro x hx hnone
    refine h.gaps x hx ?_ fun s hs => ?_
    · by_contra hlt
      have hheader := hnone headerSpan List.mem_cons_self
      have hdirectory := hnone (directorySpan c) (List.mem_cons_of_mem _ List.mem_cons_self)
      rw [directorySpan, h.header.directory, h.header.count] at hdirectory
      unfold Span.Covers Span.stop headerSpan at hheader
      unfold Span.Covers Span.stop at hdirectory
      unfold bodyStart at hlt
      dsimp only at hheader hdirectory
      omega
    · refine hnone s.span (List.mem_cons_of_mem _ (List.mem_cons_of_mem _ ?_))
      rw [h.payloads_eq]
      exact List.mem_map_of_mem hs
  · intro i hi
    obtain ⟨s, hs, heq⟩ := h.exists_slot hi
    rw [heq]
    exact congrArg crc64 (h.payloads s (List.mem_of_getElem? hs))

end Capsule

/-! ## Overwriting a payload -/

section Replace

variable {c c' : Mem} {n cursor : Nat} {items items' : List Item}

/-- What the layout depends on. -/
def Item.shape (it : Item) : Nat × Nat := (it.alignment, it.data.length)

/-- Items of the same shapes go to the same places. -/
theorem slots_congr (hshape : items'.map Item.shape = items.map Item.shape) (cursor : Nat) :
    (slots cursor items').map Slot.span = (slots cursor items).map Slot.span ∧
      finish cursor items' = finish cursor items := by
  induction items generalizing items' cursor with
  | nil =>
    rw [List.map_eq_nil_iff.mp hshape]
    exact ⟨rfl, rfl⟩
  | cons it rest ih =>
    cases items' with
    | nil => cases hshape
    | cons it' rest' =>
      obtain ⟨hhead, htail⟩ := List.cons.inj hshape
      obtain ⟨halign, hlen⟩ := Prod.mk.inj hhead
      obtain ⟨hspans, hfinish⟩ := ih htail (roundUp cursor it.alignment + it.data.length)
      rw [slots, slots, finish, finish, halign, hlen, List.map_cons, List.map_cons, hspans, hfinish]
      refine ⟨?_, rfl⟩
      rw [Slot.span, Slot.span, hlen]

theorem length_of_shape (hshape : items'.map Item.shape = items.map Item.shape) :
    items'.length = items.length := by
  have hlength := congrArg List.length hshape
  rwa [List.length_map, List.length_map] at hlength

theorem bodyStart_congr (hshape : items'.map Item.shape = items.map Item.shape) :
    bodyStart items' = bodyStart items := by rw [bodyStart, bodyStart, length_of_shape hshape]

theorem ok_of_shape (hshape : items'.map Item.shape = items.map Item.shape)
    (hok : ∀ it ∈ items, it.Ok) : ∀ it ∈ items', it.Ok := by
  intro it' hit'
  have hmem := List.mem_map_of_mem (f := Item.shape) hit'
  rw [hshape] at hmem
  obtain ⟨it, hit, hsame⟩ := List.mem_map.mp hmem
  obtain ⟨halign, hlen⟩ := Prod.mk.inj hsame
  obtain ⟨hpower, hsmall, hnonempty⟩ := hok it hit
  rw [halign] at hpower hsmall
  refine ⟨hpower, hsmall, fun hnil => hnonempty ?_⟩
  rw [hnil] at hlen
  exact List.length_eq_zero_iff.mp hlen

/-- Whether a capsule can hold items is a question about their shapes. -/
theorem Encodable.congr (h : Encodable items) (hshape : items'.map Item.shape = items.map Item.shape) :
    Encodable items' := by
  have hlength := length_of_shape hshape
  have hbody := bodyStart_congr hshape
  have hweight : weight items' = weight items := by
    have := congrArg (List.map Prod.snd) hshape
    rw [List.map_map, List.map_map] at this
    exact congrArg List.sum this
  refine ⟨ok_of_shape hshape h.ok, hlength ▸ h.count, ?_, ?_⟩
  · rw [hbody, (slots_congr hshape _).2]
    exact h.extent
  · rw [hbody, (slots_congr hshape _).2, hweight]
    exact h.work

/-- The slot of an item among items of the same shapes. -/
theorem slots_congr_getElem? (hshape : items'.map Item.shape = items.map Item.shape)
    {it' : Item} (hs : (slots cursor items)[j]? = some s) (hit : items'[j]? = some it') :
    (slots cursor items')[j]? = some ⟨s.offset, it'⟩ := by
  obtain ⟨s', hs', hitem⟩ := exists_slot_of_lt (List.getElem?_eq_some_iff.mp hit).1 cursor
  have hspan := congrArg (fun l => l[j]?) (slots_congr hshape cursor).1
  simp only [List.getElem?_map, hs, hs', Option.map_some, Option.some.injEq] at hspan
  have hoff : s'.offset = s.offset := congrArg Span.start hspan
  rw [hit, Option.some.injEq] at hitem
  rw [hs', hitem, ← hoff]

theorem slots_disjoint (hok : ∀ it ∈ items, it.Ok) {t : Slot}
    (hs : (slots cursor items)[i]? = some s) (ht : (slots cursor items)[j]? = some t)
    (hne : j ≠ i) : t.span.Disjoint s.span := by
  obtain ⟨hi, rfl⟩ := List.getElem?_eq_some_iff.mp hs
  obtain ⟨hj, rfl⟩ := List.getElem?_eq_some_iff.mp ht
  have hpair : (slots cursor items).Pairwise fun s t => s.span.stop ≤ t.span.start :=
    slots_ordered hok
  have hordered := List.pairwise_iff_getElem.mp hpair
  rcases Nat.lt_or_gt_of_ne hne with hlt | hgt
  · exact Or.inl (hordered j i hj hi hlt)
  · exact Or.inr (hordered i j hi hj hgt)

/-- A directory entry in which only the checksum was overwritten. -/
theorem direntAt_checksum {e : Nat}
    (h : ∀ k < 48, ¬ (32 ≤ k ∧ k < 40) → c' (e + k) = c (e + k)) :
    direntAt c' e = { direntAt c e with checksum := get64 c' (e + 32) } := by
  have field : ∀ o w, o + w ≤ 32 ∨ (40 ≤ o ∧ o + w ≤ 48) →
      c'.getLE (e + o) w = c.getLE (e + o) w := by
    intro o w how
    refine Mem.getLE_congr fun k hk => ?_
    rw [Nat.add_assoc]
    exact h (o + k) (by omega) (by omega)
  unfold direntAt get64 get32 get16
  rw [show c'.getLE e 8 = c.getLE e 8 from field 0 8 (by decide), field 8 4 (by decide),
    field 12 2 (by decide), field 14 2 (by decide), field 16 8 (by decide), field 24 8 (by decide),
    field 40 4 (by decide), field 44 4 (by decide)]

/-- Items are laid when each slot is. -/
theorem laid_of_slots (hsize : n = finish (bodyStart items) items)
    (hheader : HeaderIs c n items.length)
    (hslot : ∀ j < items.length, ∃ t, (slots (bodyStart items) items)[j]? = some t ∧
      direntAt c (64 + j * 48) = t.dirent ∧ c.bytes t.offset t.item.data.length = t.item.data)
    (hgaps : ∀ x < n, bodyStart items ≤ x →
      (∀ s ∈ slots (bodyStart items) items, ¬ s.span.Covers x) → c x = 0) : Laid c n items := by
  refine ⟨hsize, hheader, ?_, ?_, hgaps⟩
  · apply List.ext_getElem?
    intro j
    by_cases hj : j < items.length
    · obtain ⟨t, ht, hdirent, _⟩ := hslot j hj
      rw [List.getElem?_map, List.getElem?_map, List.getElem?_range hj, ht, Option.map_some,
        Option.map_some, hdirent]
    · rw [List.getElem?_eq_none (by rw [List.length_map, List.length_range]; omega),
        List.getElem?_eq_none (by rw [List.length_map, slots_length]; omega)]
  · intro t ht
    obtain ⟨j, hj⟩ := List.getElem?_of_mem ht
    have hj' : j < items.length := by
      rw [← slots_length (bodyStart items) items]
      exact (List.getElem?_eq_some_iff.mp hj).1
    obtain ⟨u, hu, _, hbytes⟩ := hslot j hj'
    cases hj.symm.trans hu
    exact hbytes

/-- Items of the same shapes leave the same gaps. -/
theorem slots_gap_congr (hshape : items'.map Item.shape = items.map Item.shape)
    (h : ∀ t ∈ slots cursor items', ¬ t.span.Covers x) :
    ∀ t ∈ slots cursor items, ¬ t.span.Covers x := by
  intro t ht
  have hmem := List.mem_map_of_mem (f := Slot.span) ht
  rw [← (slots_congr hshape cursor).1] at hmem
  obtain ⟨t', ht', hspan⟩ := List.mem_map.mp hmem
  rw [← hspan]
  exact h t' ht'

/-- One payload overwritten by another of the same length, with its
checksum in the directory. -/
theorem Laid.replace (h : Laid c n items) (hok : ∀ it ∈ items, it.Ok)
    {data : List UInt8} (hs : (slots (bodyStart items) items)[i]? = some s)
    (hshape : items'.map Item.shape = items.map Item.shape)
    (hother : ∀ j, j ≠ i → items'[j]? = items[j]?)
    (hnew : items'[i]? = some { s.item with data := data })
    (hframe : ∀ x, ¬ s.span.Covers x → ¬ (64 + i * 48 + 32 ≤ x ∧ x < 64 + i * 48 + 40) → c' x = c x)
    (hdata : c'.bytes s.offset s.item.data.length = data)
    (hsum : get64 c' (64 + i * 48 + 32) = crc64 data) : Laid c' n items' := by
  have hlength := length_of_shape hshape
  have hlen : data.length = s.item.data.length := by rw [← hdata, Mem.bytes_length]
  have hbody := bodyStart_congr hshape
  have hstart := (slot_bounds hok (List.mem_of_getElem? hs)).2.1
  -- the directory is before every payload
  have hbefore : ∀ x < bodyStart items, ¬ (64 + i * 48 + 32 ≤ x ∧ x < 64 + i * 48 + 40) →
      c' x = c x := by
    intro x hx hni
    refine hframe x (fun hcov => ?_) hni
    have hle : s.offset ≤ x := hcov.1
    omega
  have hdirectory : ∀ j < items.length, 64 + j * 48 + 48 ≤ bodyStart items := by
    intro j hj
    unfold bodyStart
    omega
  have hi : i < items.length := by
    rw [← slots_length (bodyStart items) items]
    exact (List.getElem?_eq_some_iff.mp hs).1
  -- slot by slot: the overwritten one, or one that is as it was
  have hslot : ∀ j < items.length, ∃ t, (slots (bodyStart items) items')[j]? = some t ∧
      direntAt c' (64 + j * 48) = t.dirent ∧
      c'.bytes t.offset t.item.data.length = t.item.data := by
    intro j hj
    obtain ⟨u, hu, hitem⟩ := exists_slot_of_lt hj (bodyStart items)
    have hdir := hdirectory j hj
    have hold := h.dirent_eq hu
    rw [h.dirent_at] at hold
    by_cases hji : j = i
    · subst hji
      cases hs.symm.trans hu
      refine ⟨_, slots_congr_getElem? hshape hs hnew, ?_, by rw [hlen]; exact hdata⟩
      rw [direntAt_checksum fun k hk hni => hbefore _ (by omega) (by omega), hold, hsum]
      unfold Slot.dirent
      rw [hlen]
    · refine ⟨u, slots_congr_getElem? hshape hu ((hother j hji).trans hitem), ?_, ?_⟩
      · rw [direntAt_congr fun k hk => hbefore _ (by omega) (by omega), hold]
      · have hbound := (slot_bounds hok (List.mem_of_getElem? hu)).2.1
        have hdisj := slots_disjoint hok hs hu hji
        have hdiri := hdirectory i hi
        refine Eq.trans (Mem.bytes_congr fun k hk => ?_) (h.payloads u (List.mem_of_getElem? hu))
        refine hframe _ (fun hcov => ?_) (by omega)
        unfold Span.Disjoint at hdisj
        unfold Span.Covers at hcov
        change u.offset + u.item.data.length ≤ s.offset ∨ s.span.stop ≤ u.offset at hdisj
        change s.offset ≤ u.offset + k ∧ u.offset + k < s.span.stop at hcov
        omega
  refine laid_of_slots ?_ ?_ (by rw [hbody, hlength]; exact hslot) ?_
  · rw [hbody, (slots_congr hshape _).2]
    exact h.size
  · rw [hlength]
    refine h.header.congr fun x hx _ => hbefore x ?_ (by omega)
    have := hdirectory i hi
    omega
  · intro x hx hstartx hnone
    rw [hbody] at hstartx hnone
    have hnone' := slots_gap_congr hshape hnone
    have := hdirectory i hi
    rw [hframe x (hnone' s (List.mem_of_getElem? hs)) (by omega)]
    exact h.gaps x hx hstartx hnone'

end Replace

/-! ## There is only one -/

section Unique

variable {c c' : Mem}

/-- Equal fields are equal bytes. -/
theorem field_inj {o w : Nat} (h : c.getLE o w = c'.getLE o w) (hlo : o ≤ x) (hhi : x < o + w) :
    c x = c' x := by
  have := Mem.getLE_inj h (x - o) (by omega)
  rwa [Nat.add_sub_cancel' hlo] at this

theorem run_inj {o k : Nat} (h : c.bytes o k = c'.bytes o k) (hlo : o ≤ x) (hhi : x < o + k) :
    c x = c' x := by
  have := Mem.bytes_eq_iff.mp h (x - o) (by omega)
  rwa [Nat.add_sub_cancel' hlo] at this

/-- Equal directory entries are equal bytes. -/
theorem direntAt_inj {e : Nat} (h : direntAt c e = direntAt c' e) (hlo : e ≤ x)
    (hhi : x < e + 48) : c x = c' x := by
  unfold direntAt at h
  simp only [Dirent.mk.injEq] at h
  obtain ⟨htype, hflags, hversion, hres0, hoff, hsize, hsum, halign, hres1⟩ := h
  by_cases h8 : x < e + 8
  · exact field_inj htype hlo (by omega)
  by_cases h12 : x < e + 12
  · exact field_inj hflags (by omega) (by omega)
  by_cases h14 : x < e + 14
  · exact field_inj hversion (by omega) (by omega)
  by_cases h16 : x < e + 16
  · exact field_inj hres0 (by omega) (by omega)
  by_cases h24 : x < e + 24
  · exact field_inj hoff (by omega) (by omega)
  by_cases h32 : x < e + 32
  · exact field_inj hsize (by omega) (by omega)
  by_cases h40 : x < e + 40
  · exact field_inj hsum (by omega) (by omega)
  by_cases h44 : x < e + 44
  · exact field_inj halign (by omega) (by omega)
  · exact field_inj hres1 (by omega) (by omega)

/-- Headers that say the same are the same bytes, their checksums apart. -/
theorem HeaderIs.inj {count : Nat} (h : HeaderIs c n count) (h' : HeaderIs c' n count)
    (hx : x < 64) (hcrc : ¬ (40 ≤ x ∧ x < 48)) : c x = c' x := by
  by_cases h8 : x < 8
  · exact run_inj (h.magic.trans h'.magic.symm) (Nat.zero_le x) (by omega)
  by_cases h10 : x < 10
  · exact field_inj (h.major.trans h'.major.symm) (by omega) (by omega)
  by_cases h12 : x < 12
  · exact field_inj (h.minor.trans h'.minor.symm) (by omega) (by omega)
  by_cases h14 : x < 14
  · exact field_inj (h.headerSize.trans h'.headerSize.symm) (by omega) (by omega)
  by_cases h16 : x < 16
  · exact field_inj (h.direntSize.trans h'.direntSize.symm) (by omega) (by omega)
  by_cases h20 : x < 20
  · exact field_inj (h.flags.trans h'.flags.symm) (by omega) (by omega)
  by_cases h24 : x < 24
  · exact field_inj (h.count.trans h'.count.symm) (by omega) (by omega)
  by_cases h32 : x < 32
  · exact field_inj (h.total.trans h'.total.symm) (by omega) (by omega)
  by_cases h40 : x < 40
  · exact field_inj (h.directory.trans h'.directory.symm) (by omega) (by omega)
  by_cases h56 : x < 56
  · exact field_inj (h.reserved0.trans h'.reserved0.symm) (by omega) (by omega)
  · exact field_inj (h.reserved1.trans h'.reserved1.symm) (by omega) (by omega)

/-- Two encodings of the same items are the same bytes. -/
theorem IsEncoding.unique {n' : Nat} {items : List Item} (h : IsEncoding c n items)
    (h' : IsEncoding c' n' items) : n = n' ∧ ∀ x < n, c x = c' x := by
  have hn : n = n' := h.size.trans h'.size.symm
  subst hn
  have hrest : ∀ x < n, ¬ (40 ≤ x ∧ x < 48) → c x = c' x := by
    intro x hx hcrc
    by_cases h64 : x < 64
    · exact h.header.inj h'.header h64 hcrc
    by_cases hdir : x < bodyStart items
    · unfold bodyStart at hdir
      have hi : (x - 64) / 48 < items.length := Nat.div_lt_of_lt_mul (by omega)
      have hget := congrArg (fun l => l[(x - 64) / 48]?) (h.entries.trans h'.entries.symm)
      simp only [List.getElem?_map, List.getElem?_range hi, Option.map_some,
        Option.some.injEq] at hget
      have hdiv := Nat.div_mul_le_self (x - 64) 48
      have hmod := Nat.lt_div_mul_add (a := x - 64) (show 0 < 48 by decide)
      exact direntAt_inj hget (by omega) (by omega)
    · by_cases hcover : ∃ s ∈ slots (bodyStart items) items, s.span.Covers x
      · obtain ⟨s, hs, hlo, hhi⟩ := hcover
        exact run_inj ((h.payloads s hs).trans (h'.payloads s hs).symm) hlo hhi
      · have hnone : ∀ s ∈ slots (bodyStart items) items, ¬ s.span.Covers x :=
          fun s hs hc => hcover ⟨s, hs, hc⟩
        rw [h.gaps x hx (by omega) hnone, h'.gaps x hx (by omega) hnone]
  refine ⟨rfl, fun x hx => ?_⟩
  by_cases hcrc : 40 ≤ x ∧ x < 48
  · have hsum : get64 c 40 = get64 c' 40 := by
      rw [← h.crc, ← h'.crc]
      refine crcSpliced_congr (fun i hi => ?_) fun i hlo hhi => ?_
      · rw [Nat.zero_add]
        exact hrest i (by omega) (by omega)
      · rw [Nat.zero_add]
        exact hrest i hhi (by omega)
    exact field_inj hsum hcrc.1 (by omega)
  · exact hrest x hx hcrc

end Unique

end BearBoot.V2
