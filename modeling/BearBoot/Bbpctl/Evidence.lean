import BearBoot.Machine.Pack
import BearBoot.Bbpctl.Model
import BearBoot.Kernel.Chain
import BearBoot.Kernel.Evidence

/-!
# Host evidence and kernel evidence

The host resolves a link by looking for the directory entry with that
address; the kernel adds an offset to it and reads. `evidence_agrees` says
that both produce one stream whenever the host produces one at all and the
captured bytes stand in memory where the kernel looks.

A walk without notes is a path of links to null through tags whose frames
are good (`walkLoop_spec`, `Framed`). Laid out in memory, a framed tag is a
tag the kernel accepts (`Laid.tagOk`), with the same bytes, the same link
and the same verdict on its checksum (`Laid.crc_iff`). Skipping a tag with
a bad checksum is a filter on both sides, so the streams agree whatever
tags it falls on.

That `evidence_bytes` refuses every capture with a note that is not a tag's
checksum is `evidenceBytes_ok_iff`. The script tells notes apart as
strings, so it needs that no other note begins like a tag's (`Titled`).
-/

set_option autoImplicit false

namespace BearBoot.Bbpctl

open Machine Kernel

variable {text : String} {raw : List UInt8} {c : Capture} {steps index pointer : Nat} {visited : List Nat}

/-! ## Notes -/

/-- The text does not begin like a tag's. -/
def Titled (text : String) : Prop :=
  4 ≤ text.toList.length ∧ text.toList.take 4 ≠ ['t', 'a', 'g', ' ']

instance (text : String) : Decidable (Titled text) := inferInstanceAs (Decidable (_ ∧ _))

theorem Titled.append {a : String} (h : Titled a) (b : String) : Titled (a ++ b) := by
  rw [Titled, String.toList_append, List.take_append_of_le_length h.1, List.length_append]
  exact ⟨Nat.le_add_right_of_le h.1, h.2⟩

theorem crcText_not_titled (tag : ChainTag) : ¬ Titled (crcText tag) := by
  rintro ⟨_, h⟩
  apply h
  simp only [crcText, String.toList_append, List.append_assoc]
  rw [List.take_append_of_le_length (by decide)]
  decide

@[simp] theorem note_eq_nil_iff {c : Prop} [Decidable c] :
    note c text = [] ↔ ¬ c := by
  unfold note
  split
  next h => simp [h]
  next h => simp [h]

/-- All of the notes are titled. -/
def AllTitled (errors : List String) : Prop := ∀ e ∈ errors, Titled e

theorem AllTitled.nil : AllTitled [] := fun _ h => by cases h

theorem AllTitled.single (h : Titled text) : AllTitled [text] := by
  intro e he
  rwa [List.mem_singleton.mp he]

theorem AllTitled.append {a b : List String} (ha : AllTitled a) (hb : AllTitled b) :
    AllTitled (a ++ b) := by
  intro e he
  rcases List.mem_append.mp he with h | h
  · exact ha e h
  · exact hb e h

theorem AllTitled.note {c : Prop} [Decidable c] (h : Titled text) :
    AllTitled (note c text) := by
  unfold Bbpctl.note
  split
  · exact AllTitled.single h
  · exact AllTitled.nil

theorem AllTitled.flatMap {α : Type} {l : List α} {f : α → List String}
    (h : ∀ a ∈ l, AllTitled (f a)) : AllTitled (l.flatMap f) := by
  intro e he
  obtain ⟨a, ha, hmem⟩ := List.mem_flatMap.mp he
  exact h a ha e hmem

theorem headerErrors_titled (raw : List UInt8) (h : Header) (hraw : 96 ≤ raw.length) :
    AllTitled (headerErrors raw h hraw) := by
  unfold headerErrors
  refine .append (.append (.append (.append (.append (.append (.append (.flatMap ?_) (.note ?_))
    (.note ?_)) (.note ?_)) (.note ?_)) (.note ?_)) (.note ?_)) (.note ?_)
  · rintro ⟨name, value, expected⟩ _
    exact .note (.append (.append (.append (.append (.append (by decide) _) _) _) _) _)
  · exact .append (.append (by decide) _) _
  · exact .append (.append (.append (by decide) _) _) _
  · decide
  · decide
  · exact .append (.append (.append (by decide) _) _) _
  · decide
  · exact .append (.append (.append (by decide) _) _) _

theorem checkEntry_titled {size expectedData : Nat} {st : Progress} (e : DirectoryEntry)
    (h : AllTitled st.errors) : AllTitled (checkEntry size expectedData st e).errors := by
  have hlabel : Titled ("directory entry " ++ dec e.index) := .append (by decide) _
  unfold checkEntry
  dsimp only
  refine .append (.append (.append (.append (.append (.append (.append (.append h
    (.note (hlabel.append _))) ?_) (.note (hlabel.append _))) ?_)
    (.note (.append (.append (hlabel.append _) _) _))) (.note (.append (.append (hlabel.append _) _) _)))
    ?_) (.note (hlabel.append _))
  · split
    · exact .single (.append (hlabel.append _) _)
    · exact .nil
  · split
    · exact .single (.append (hlabel.append _) _)
    · exact .nil
  · split
    · exact .single (hlabel.append _)
    split
    · exact .single (hlabel.append _)
    split
    · exact .single (hlabel.append _)
    · exact .nil

theorem foldl_checkEntry_titled {size expectedData : Nat} (entries : List DirectoryEntry)
    {st : Progress} (h : AllTitled st.errors) :
    AllTitled (entries.foldl (checkEntry size expectedData) st).errors := by
  induction entries generalizing st with
  | nil => exact h
  | cons e entries ih => exact ih (checkEntry_titled e h)

theorem walkFile_titled (raw : List UInt8) (ranges : List (Nat × Nat × Nat)) (cursor : Nat)
    (previous : Option (Nat × Nat × Nat)) : AllTitled (walkFile raw cursor previous ranges).1 := by
  induction ranges generalizing cursor previous with
  | nil => exact .nil
  | cons range ranges ih =>
    obtain ⟨start, finish, index⟩ := range
    have hpadding : Titled ("nonzero payload padding before entry " ++ dec index) :=
      .append (by decide) _
    refine .append ?_ (ih _ _)
    cases previous with
    | none => exact .note hpadding
    | some before =>
      dsimp only
      split
      · exact .single (.append (.append (.append (.append (by decide) _) _) _) _)
      · exact .note hpadding

theorem walkSources_titled (ranges : List (Nat × Nat × String)) : AllTitled (walkSources ranges) := by
  induction ranges with
  | nil => exact .nil
  | cons a rest ih =>
    cases rest with
    | nil => exact .nil
    | cons b rest =>
      exact .append (.note (.append (.append (.append (.append (by decide) _) _) _) _)) ih

theorem directoryErrors_titled (raw : List UInt8) (h : Header) (entries : List DirectoryEntry)
    (directoryEnd : Nat) : AllTitled (directoryErrors raw h entries directoryEnd) := by
  unfold directoryErrors
  dsimp only
  exact .append (.append (.append (.append (.append (.note (by decide)) (.note (by decide)))
    (foldl_checkEntry_titled entries .nil)) (walkFile_titled _ _ _ _))
    (.note (.append (.append (by decide) _) _))) (walkSources_titled _)

theorem parseInfo_titled (info : List UInt8) : AllTitled (parseInfo info).2 := by
  unfold parseInfo
  split
  · refine .append (.append (.append (.append (.append (.append (.note (by decide)) (.note ?_))
      (.note ?_)) (.note ?_)) (.note ?_)) (.note ?_)) (.note ?_)
    · exact .append (.append (by decide) _) _
    · exact .append (.append (by decide) _) _
    · exact .append (.append (by decide) _) _
    · exact .append (.append (by decide) _) _
    · exact .append (.append (by decide) _) _
    · exact .append (.append (.append (by decide) _) _) _
  · exact .single (.append (.append (by decide) _) _)

/-- No note of a parsed capture can be taken for a tag's. -/
theorem parseCapture_titled (h : parseCapture raw = .ok c) :
    AllTitled c.containerErrors ∧ AllTitled c.infoErrors := by
  unfold parseCapture at h
  split at h
  · cases h
  split at h
  · cases h
  · cases h
    refine ⟨.append (headerErrors_titled _ _ _) (directoryErrors_titled _ _ _ _),
      .append (parseInfo_titled _) ?_⟩
    dsimp only
    split
    · exact .note (by decide)
    · exact .nil

/-- What `evidence_bytes` asks of a capture. -/
structure Sound (c : Capture) (f : InfoFields) : Prop where
  container : c.containerErrors = []
  info : c.infoErrors = []
  fields : c.infoFields = some f
  chain : (walkChain c).2 = []
  count : f.tagCount = (walkChain c).1.length
  reachable : (walkChain c).1.map ChainTag.sourcePhys ⊆ c.entries.map DirectoryEntry.sourcePhys
  listed : c.entries.map DirectoryEntry.sourcePhys ⊆ (walkChain c).1.map ChainTag.sourcePhys

/-- What `evidence_bytes` returns. -/
def evidenceOf (c : Capture) : List UInt8 × List ChainTag × List ChainTag :=
  (evidenceMagic ++ c.info ++
      (((walkChain c).1.filter fun tag => tag.checksumValid).map ChainTag.payload).flatten,
    (walkChain c).1.filter fun tag => tag.checksumValid,
    (walkChain c).1.filter fun tag => !tag.checksumValid)

/-- Notes that are no tag's are what is fatal. -/
theorem filter_fatal {errors : List String} (tags : List ChainTag) (h : AllTitled errors) :
    (errors.filter fun e => e ∉ crcErrors tags) = errors := by
  rw [List.filter_eq_self]
  intro e he
  rw [decide_eq_true_eq]
  intro hcrc
  obtain ⟨tag, _, rfl⟩ := List.mem_map.mp hcrc
  exact crcText_not_titled tag (h _ he)

theorem filter_crcErrors (tags : List ChainTag) :
    ((crcErrors tags).filter fun e => e ∉ crcErrors tags) = [] := by
  rw [List.filter_eq_nil_iff]
  intro e he
  simpa using he

/-- `evidence_bytes` does not raise exactly on sound captures. -/
theorem evidenceBytes_ok_iff (hc : parseCapture raw = .ok c)
    {r : List UInt8 × List ChainTag × List ChainTag} :
    evidenceBytes c = .ok r ↔ (∃ f, Sound c f) ∧ r = evidenceOf c := by
  obtain ⟨hcontainer, hinfo⟩ := parseCapture_titled hc
  unfold evidenceBytes validation
  dsimp only
  cases hf : c.infoFields with
  | none =>
    have hchain : (walkChain c).2 ≠ [] := by simp [walkChain, hf]
    rw [if_pos (Or.inl hchain)]
    refine ⟨(fun h => by cases h), ?_⟩
    rintro ⟨⟨f, hsound⟩, _⟩
    exact absurd hsound.chain hchain
  | some f =>
    by_cases hchain : (walkChain c).2 = []
    · have htitled : AllTitled (note (True ∧ f.tagCount ≠ (walkChain c).1.length)
          ("INFO tag_count is " ++ dec f.tagCount ++ ", reachable tag count is " ++
            dec (walkChain c).1.length)) := .note (.append (.append (.append (by decide) _) _) _)
      simp only [hchain, List.append_nil, List.filter_append, filter_fatal _ hcontainer,
        filter_fatal _ hinfo, filter_crcErrors]
      rw [filter_fatal _ htitled, filter_fatal _ (.note (by decide))]
      have hfatal : (∃ f, Sound c f) ↔ (c.containerErrors = [] ∧ c.infoErrors = []) ∧
          ¬ f.tagCount ≠ (walkChain c).1.length ∧ ¬ ¬
          ((walkChain c).1.map ChainTag.sourcePhys ⊆ c.entries.map DirectoryEntry.sourcePhys ∧
            c.entries.map DirectoryEntry.sourcePhys ⊆ (walkChain c).1.map ChainTag.sourcePhys) := by
        rw [not_not, not_not]
        constructor
        · rintro ⟨f', h⟩
          obtain rfl : f' = f := Option.some.inj (h.fields.symm.trans hf)
          exact ⟨⟨h.container, h.info⟩, h.count, h.reachable, h.listed⟩
        · rintro ⟨⟨h1, h2⟩, h3, h4, h5⟩
          exact ⟨f, h1, h2, hf, hchain, h3, h4, h5⟩
      rw [hfatal]
      simp only [ne_eq, not_true_eq_false, false_or, List.append_eq_nil_iff, note_eq_nil_iff,
        true_and]
      split
      next hno => exact ⟨(fun h => by cases h), fun h => absurd h.1 hno⟩
      next hyes =>
        refine ⟨fun h => ⟨not_not.mp hyes, (Except.ok.inj h).symm⟩, fun h => ?_⟩
        rw [h.2]
        rfl
    · rw [if_pos (Or.inl hchain)]
      refine ⟨(fun h => by cases h), ?_⟩
      rintro ⟨⟨f, hsound⟩, _⟩
      exact absurd hsound.chain hchain

/-! ## INFO -/

theorem checksumWithZero_eq {data : List UInt8} {offset : Nat} (h : offset + 8 ≤ data.length) :
    checksumWithZero data offset h = crcSpliced (Mem.ofList data) 0 data.length offset := by
  rw [checksumWithZero, pyCrc64_eq, crcSpliced_eq_crc64, Mem.bytes_ofList_drop (by omega),
    Mem.bytes_ofList_drop (by omega), List.drop_zero, Nat.zero_add,
    List.take_of_length_le (i := data.length - offset - 8) (by rw [List.length_drop]; omega)]

/-- INFO without notes is one the kernel accepts. -/
theorem infoOk_of_parseInfo {info : List UInt8} {f : InfoFields} (hf : (parseInfo info).1 = some f)
    (h : (parseInfo info).2 = []) :
    info.length = 144 ∧ InfoOk (Mem.ofList info) 0 ∧ f.firstTag = infoFirstTag (Mem.ofList info) 0 := by
  unfold parseInfo at hf h
  split at hf
  next hlen =>
    rw [dif_pos hlen] at h
    cases hf
    simp only [List.append_eq_nil_iff, note_eq_nil_iff, not_not] at h
    obtain ⟨⟨⟨⟨⟨⟨hmagic, hmajor⟩, hsize⟩, _⟩, _⟩, _⟩, hcrc⟩ := h
    refine ⟨hlen, ⟨hmagic, hmajor, hsize.1, hsize.2, ?_⟩, ?_⟩
    · rw [checksumWithZero_eq, hlen] at hcrc
      rw [Nat.zero_add]
      exact hcrc
    · rw [infoFirstTag, Nat.zero_add]
  next => cases hf

/-- What a parsed capture says of INFO is what `_parse_info` said. -/
theorem parseCapture_info (h : parseCapture raw = .ok c) :
    c.infoFields = (parseInfo c.info).1 ∧ (c.infoErrors = [] → (parseInfo c.info).2 = []) := by
  unfold parseCapture at h
  split at h
  · cases h
  split at h
  · cases h
  · cases h
    exact ⟨rfl, fun hnil => (List.append_eq_nil_iff.mp hnil).1⟩

/-! ## The walk -/

/-- A tag of the chain as its entry holds it, with a good frame. -/
structure Framed (entries : List DirectoryEntry) (tag : ChainTag) : Prop where
  nonzero : tag.sourcePhys ≠ 0
  aligned : tag.sourcePhys % 8 = 0
  entry : ∃ e ∈ entries, e.sourcePhys = tag.sourcePhys ∧ e.dataSize = tag.payload.length ∧
    e.payload = tag.payload
  size : get32 (Mem.ofList tag.payload) 8 = tag.payload.length
  sizeLow : 32 ≤ tag.payload.length
  sizeHigh : tag.payload.length ≤ 16777216
  next : tag.nextTag = get64 (Mem.ofList tag.payload) 16
  valid : tag.checksumValid = decide (CrcOk (Mem.ofList tag.payload) 0)

/-- The links of the tags lead from `pointer` through all of them to null. -/
def Linked : (pointer : Nat) → List ChainTag → Prop
  | pointer, [] => pointer = 0
  | pointer, tag :: tags => pointer = tag.sourcePhys ∧ Linked tag.nextTag tags

section Walk

variable {entries : List DirectoryEntry}

/-- What the walk finds behind a link before it goes on: an entry with that
address, not visited before, with a good frame. -/
structure Visit (entries : List DirectoryEntry) (pointer : Nat) (visited : List Nat) (e : DirectoryEntry) :
    Prop where
  nonzero : pointer ≠ 0
  aligned : pointer % 8 = 0
  fresh : pointer ∉ visited
  found : entries.find? (·.sourcePhys = pointer) = some e
  header : 32 ≤ e.payload.length
  low : 32 ≤ get32 (Mem.ofList e.payload) 8
  high : get32 (Mem.ofList e.payload) 8 ≤ 16 * 1024 * 1024
  size : get32 (Mem.ofList e.payload) 8 = e.dataSize
  length : get32 (Mem.ofList e.payload) 8 = e.payload.length

/-- The tag of an entry. -/
def tagOf (index pointer : Nat) (e : DirectoryEntry) : ChainTag :=
  ⟨index, pointer, get64 (Mem.ofList e.payload) 0, get32 (Mem.ofList e.payload) 8,
    get16 (Mem.ofList e.payload) 12, get16 (Mem.ofList e.payload) 14,
    get64 (Mem.ofList e.payload) 16, get64 (Mem.ofList e.payload) 24,
    get64 (Mem.ofList e.payload) 24 = crcSpliced (Mem.ofList e.payload) 0 e.payload.length 24,
    e.payload⟩

/-- A visit takes the tag and follows its link. -/
theorem walkLoop_visit {e : DirectoryEntry}
    (h : Visit entries pointer visited e) :
    walkLoop entries (steps + 1) index pointer visited =
      (tagOf index pointer e ::
        (walkLoop entries steps (index + 1) (get64 (Mem.ofList e.payload) 16) (pointer :: visited)).1,
      (walkLoop entries steps (index + 1) (get64 (Mem.ofList e.payload) 16) (pointer :: visited)).2) := by
  have hmatch : ¬ (get32 (Mem.ofList e.payload) 8 ≠ e.dataSize ∨
      get32 (Mem.ofList e.payload) 8 ≠ e.payload.length) := by
    rw [not_or, not_not, not_not]
    exact ⟨h.size, h.length⟩
  have hsized : ¬ ¬ (32 ≤ get32 (Mem.ofList e.payload) 8 ∧
      get32 (Mem.ofList e.payload) 8 ≤ 16 * 1024 * 1024) := not_not.mpr ⟨h.low, h.high⟩
  rw [walkLoop, if_neg h.nonzero, if_neg (not_not.mpr h.aligned), if_neg h.fresh, h.found]
  simp only [dif_neg (Nat.not_lt.mpr h.header), if_neg hsized, if_neg hmatch, checksumWithZero_eq]
  rfl

/-- A walk that notes nothing and is not at its end makes a visit. -/
theorem walkLoop_visits (hne : pointer ≠ 0)
    (h : (walkLoop entries steps index pointer visited).2 = []) :
    ∃ k e, steps = k + 1 ∧ Visit entries pointer visited e := by
  cases steps with
  | zero =>
    rw [walkLoop, note_eq_nil_iff, not_not] at h
    exact absurd h hne
  | succ k =>
    rw [walkLoop, if_neg hne] at h
    by_cases halign : pointer % 8 ≠ 0
    · rw [if_pos halign] at h
      cases h
    rw [if_neg halign] at h
    by_cases hcycle : pointer ∈ visited
    · rw [if_pos hcycle] at h
      cases h
    rw [if_neg hcycle] at h
    cases hfind : entries.find? (·.sourcePhys = pointer) with
    | none =>
      rw [hfind] at h
      cases h
    | some e =>
      simp only [hfind] at h
      by_cases hshort : e.payload.length < 32
      · rw [dif_pos hshort] at h
        cases h
      rw [dif_neg hshort] at h
      by_cases hsize : ¬ (32 ≤ get32 (Mem.ofList e.payload) 8 ∧
          get32 (Mem.ofList e.payload) 8 ≤ 16 * 1024 * 1024)
      · rw [if_pos hsize] at h
        cases h
      rw [if_neg hsize] at h
      by_cases hmatch : get32 (Mem.ofList e.payload) 8 ≠ e.dataSize ∨
          get32 (Mem.ofList e.payload) 8 ≠ e.payload.length
      · rw [if_pos hmatch] at h
        cases h
      rw [not_or, not_not, not_not] at hmatch
      exact ⟨k, e, rfl, hne, not_not.mp halign, hcycle, hfind, Nat.not_lt.mp hshort,
        (not_not.mp hsize).1, (not_not.mp hsize).2, hmatch.1, hmatch.2⟩

theorem Visit.framed {e : DirectoryEntry}
    (h : Visit entries pointer visited e) : Framed entries (tagOf index pointer e) := by
  have hsource := List.find?_some h.found
  rw [decide_eq_true_eq] at hsource
  refine ⟨h.nonzero, h.aligned, ⟨e, List.mem_of_find?_eq_some h.found, hsource, ?_, rfl⟩, h.length,
    h.header, ?_, rfl, ?_⟩
  · exact h.size.symm.trans h.length
  · have hhigh := h.high
    rwa [h.length] at hhigh
  · refine decide_eq_decide.mpr ?_
    unfold CrcOk tagSize tagChecksum
    rw [Nat.zero_add, Nat.zero_add]
    change _ ↔ crcSpliced (Mem.ofList e.payload) 0 (get32 (Mem.ofList e.payload) 8) 24 = _
    rw [h.length]
    exact eq_comm

/-- A walk without notes: no more tags than steps, each with a good frame,
linked to null. -/
theorem walkLoop_spec (h : (walkLoop entries steps index pointer visited).2 = []) :
    (walkLoop entries steps index pointer visited).1.length ≤ steps ∧
      (∀ tag ∈ (walkLoop entries steps index pointer visited).1, Framed entries tag) ∧
      Linked pointer (walkLoop entries steps index pointer visited).1 := by
  induction steps generalizing index pointer visited with
  | zero =>
    rw [walkLoop, note_eq_nil_iff, not_not] at h
    exact ⟨Nat.le_refl 0, (fun _ ht => by cases ht), h⟩
  | succ steps ih =>
    by_cases hzero : pointer = 0
    · rw [walkLoop, if_pos hzero]
      exact ⟨Nat.zero_le _, (fun _ ht => by cases ht), hzero⟩
    obtain ⟨_, e, _, hvisit⟩ := walkLoop_visits hzero h
    rw [walkLoop_visit hvisit] at h ⊢
    obtain ⟨hlen, hframed, hlinked⟩ := ih h
    exact ⟨Nat.succ_le_succ hlen, List.forall_mem_cons.mpr ⟨hvisit.framed, hframed⟩, rfl, hlinked⟩

end Walk

/-! ## In memory -/

/-- The captured bytes stand in memory at their addresses moved by `hint`,
and no range wraps. -/
structure Laid (c : Capture) (m : Mem) (hint : Nat) : Prop where
  info : m.bytes (c.header.infoPhys + hint) 144 = c.info
  infoEnd : c.header.infoPhys + hint + 144 ≤ 2 ^ 64 - 1
  tags : ∀ e ∈ c.entries, m.bytes (e.sourcePhys + hint) e.payload.length = e.payload
  tagEnds : ∀ e ∈ c.entries, e.sourcePhys + hint + e.dataSize ≤ 2 ^ 64 - 1

/-- The context of a kernel that was given `hint`. -/
def contextOf (c : Capture) (hint : Nat) : Kctx := ⟨c.header.infoPhys + hint, hint, true, 0, 0⟩

section Memory

variable {c : Capture} {m : Mem} {hint : Nat} {tag : ChainTag}

theorem Laid.bytes (h : Laid c m hint) (ht : Framed c.entries tag) :
    m.bytes (tag.sourcePhys + hint) tag.payload.length = tag.payload := by
  obtain ⟨e, he, hsource, _, hpayload⟩ := ht.entry
  rw [← hsource, ← hpayload]
  exact h.tags e he

theorem Laid.byte (h : Laid c m hint) (ht : Framed c.entries tag) {i : Nat}
    (hi : i < tag.payload.length) : m (tag.sourcePhys + hint + i) = Mem.ofList tag.payload (0 + i) := by
  have hread := Mem.ofList_bytes (m := m) (a := tag.sourcePhys + hint) hi
  rw [h.bytes ht] at hread
  rw [Nat.zero_add, hread]

theorem Laid.tagSize (h : Laid c m hint) (ht : Framed c.entries tag) :
    tagSize m (tag.sourcePhys + hint) = tag.payload.length := by
  have hlow := ht.sizeLow
  rw [tagSize_congr (m := Mem.ofList tag.payload) (t := 0) fun i hi => h.byte ht (by omega)]
  rw [BearBoot.tagSize, Nat.zero_add, ht.size]

theorem Laid.tagNext (h : Laid c m hint) (ht : Framed c.entries tag) :
    tagNext m (tag.sourcePhys + hint) = tag.nextTag := by
  have hlow := ht.sizeLow
  rw [ht.next]
  refine Mem.getLE_congr fun i hi => ?_
  rw [Nat.add_assoc, h.byte ht (by omega), Nat.zero_add]

/-- The kernel accepts the tag. -/
theorem Laid.tagOk (h : Laid c m hint) (ht : Framed c.entries tag)
    (hbelow : ∀ e ∈ c.entries, e.sourcePhys + e.dataSize ≤ 2 ^ 48) :
    TagOk (contextOf c hint) m tag.sourcePhys := by
  obtain ⟨e, he, hsource, hlen, _⟩ := ht.entry
  have hsize : BearBoot.tagSize m (tag.sourcePhys + (contextOf c hint).hhdmOffset) =
      tag.payload.length := h.tagSize ht
  have hend := h.tagEnds e he
  have hmax := hbelow e he
  rw [hsource, hlen] at hend hmax
  refine ⟨ht.nonzero, ht.aligned, ?_, ?_, ?_, ?_, fun hwin => absurd hwin (Nat.lt_irrefl 0)⟩
  · rw [hsize]; exact ht.sizeLow
  · rw [hsize]; exact ht.sizeHigh
  · rw [hsize]; exact hmax
  · rw [hsize]
    change tag.sourcePhys + hint + tag.payload.length < 2 ^ 64
    omega

/-- And agrees about its checksum. -/
theorem Laid.crc_iff (h : Laid c m hint) (ht : Framed c.entries tag) :
    CrcOk m (tag.sourcePhys + hint) ↔ tag.checksumValid = true := by
  have hsize : BearBoot.tagSize (Mem.ofList tag.payload) 0 = tag.payload.length := by
    rw [BearBoot.tagSize, Nat.zero_add, ht.size]
  rw [ht.valid, decide_eq_true_eq]
  constructor
  · intro hok
    refine hok.congr ?_ fun i hi => ?_
    · rw [h.tagSize ht]; exact ht.sizeLow
    · rw [h.tagSize ht] at hi
      exact (h.byte ht hi).symm
  · intro hok
    refine hok.congr ?_ fun i hi => ?_
    · rw [hsize]; exact ht.sizeLow
    · rw [hsize] at hi
      exact h.byte ht hi

/-- The links in the directory are the links in memory. -/
theorem Laid.path (h : Laid c m hint) {tags : List ChainTag}
    (htags : ∀ tag ∈ tags, Framed c.entries tag) (hlinked : Linked pointer tags) :
    Path (fun p => BearBoot.tagNext m (p + hint)) pointer (tags.map ChainTag.sourcePhys) 0 := by
  induction tags generalizing pointer with
  | nil => exact hlinked
  | cons tag tags ih =>
    obtain ⟨rfl, hrest⟩ := hlinked
    refine ⟨rfl, ?_⟩
    dsimp only
    rw [h.tagNext (htags tag List.mem_cons_self)]
    exact ih (fun t ht => htags t (List.mem_cons_of_mem _ ht)) hrest

/-- The tags the kernel delivers are those whose checksum the host found
valid. -/
theorem Laid.delivered (h : Laid c m hint) {tags : List ChainTag}
    (hbelow : ∀ e ∈ c.entries, e.sourcePhys + e.dataSize ≤ 2 ^ 48)
    (hcount : tags.length ≤ 1024) (htags : ∀ tag ∈ tags, Framed c.entries tag)
    (hlinked : Linked (infoFirstTag m (c.header.infoPhys + hint)) tags) :
    delivered (contextOf c hint) m =
      (tags.filter fun tag => tag.checksumValid).map fun tag => tag.sourcePhys + hint := by
  have hwalk : walk (contextOf c hint) m maxTags (infoFirstTag m (contextOf c hint).info) =
      (tags.map ChainTag.sourcePhys).map (· + hint) := by
    refine walk_of_path (h.path htags hlinked) ?_ ?_
    · rw [List.length_map]
      exact hcount
    · intro p hp
      obtain ⟨tag, htag, rfl⟩ := List.mem_map.mp hp
      exact h.tagOk (htags tag htag) hbelow
  rw [Kernel.delivered, hwalk, List.map_map, List.filter_map]
  congr 1
  refine List.filter_congr fun tag htag => ?_
  have hpass : Passes (contextOf c hint) m (tag.sourcePhys + hint) ↔ tag.checksumValid = true :=
    ⟨fun hp => (h.crc_iff (htags tag htag)).mp (hp rfl),
      fun hv _ => (h.crc_iff (htags tag htag)).mpr hv⟩
  change decide (Passes (contextOf c hint) m (tag.sourcePhys + hint)) = _
  rw [Bool.eq_iff_iff, decide_eq_true_eq, hpass]

end Memory

/-- Host and kernel agree. Where `evidence_bytes` does not raise and the
captured bytes stand in memory at their addresses moved by a hint, the
kernel accepts INFO with that hint, feeds its callback the host's stream,
and counts the host's tags. -/
theorem evidence_agrees (raw : List UInt8) (c : Capture) (stream : List UInt8)
    (included skipped : List ChainTag) (m : Mem) (hint : Nat) (out : Kctx)
    (hparse : parseCapture raw = .ok c)
    (hevidence : evidenceBytes c = .ok (stream, included, skipped))
    (hbelow : ∀ e ∈ c.entries, e.sourcePhys + e.dataSize ≤ 2 ^ 48)
    (hhint : hint ≠ 0) (hlaid : Laid c m hint) :
    ∃ k, (initEx (some out) (c.header.infoPhys + hint) hint).val m = (.ok, some k) ∧
      (evidence (some k) (some fun fed data => fed ++ data) []).val m = (included.length, stream) := by
  obtain ⟨⟨f, hsound⟩, heq⟩ := (evidenceBytes_ok_iff hparse).mp hevidence
  cases heq
  obtain ⟨hfields, herrors⟩ := parseCapture_info hparse
  obtain ⟨hlen, hok, hfirst⟩ :=
    infoOk_of_parseInfo (hfields.symm.trans hsound.fields) (herrors hsound.info)
  -- INFO in memory is INFO in the capture.
  have hinfo : ∀ i < 144, m (c.header.infoPhys + hint + i) = Mem.ofList c.info (0 + i) := by
    intro i hi
    have hread := Mem.ofList_bytes (m := m) (a := c.header.infoPhys + hint) hi
    rw [hlaid.info] at hread
    rw [Nat.zero_add, hread]
  have hpointer : infoFirstTag m (c.header.infoPhys + hint) = f.firstTag := by
    rw [hfirst]
    refine Mem.getLE_congr fun i hi => ?_
    rw [Nat.add_assoc, hinfo _ (by omega), Nat.zero_add, Nat.zero_add]
  have hne : c.header.infoPhys + hint ≠ 0 := by omega
  -- The walk of the host is a walk through framed tags.
  have hchain : walkChain c = walkLoop c.entries 1024 0 f.firstTag [] := by
    rw [walkChain, hsound.fields]
  obtain ⟨hcount, hframed, hlinked⟩ := walkLoop_spec (hchain ▸ hsound.chain)
  rw [← hchain] at hcount hframed hlinked
  have hdelivered := hlaid.delivered hbelow hcount hframed (hpointer.symm ▸ hlinked)
  refine ⟨contextOf c hint, ?_, ?_⟩
  · rw [initEx, initWin_val (Option.some_ne_none out) hne m hint 0 0 (hok.congr hinfo),
      laterOffset_of_hint m hhint]
    rfl
  · have hbytes : ∀ tag ∈ (walkChain c).1.filter fun tag => tag.checksumValid,
        m.bytes (tag.sourcePhys + hint) (tagSize m (tag.sourcePhys + hint)) = tag.payload := by
      intro tag htag
      have ht := hframed tag (List.mem_filter.mp htag).1
      rw [hlaid.tagSize ht, hlaid.bytes ht]
    have hmap : ((walkChain c).1.filter fun tag => tag.checksumValid).map
        ((fun t => m.bytes t (tagSize m t)) ∘ fun tag => tag.sourcePhys + hint) =
        ((walkChain c).1.filter fun tag => tag.checksumValid).map ChainTag.payload :=
      List.map_congr_left hbytes
    rw [evidence_val hne, hdelivered, List.length_map, List.map_map, hmap,
      show (contextOf c hint).info = c.header.infoPhys + hint from rfl, hlaid.info]
    rfl

/-- A capture of two tags, the first with a bad checksum, in a directory
that lists the second one first. -/
def sampleCapture : List UInt8 :=
  ([0x545041432d504242, 0x31562d455255, 0x6000000001, 0x1000100000000, 0x200000090, 0x18,
    0x1000, 0xf0, 0x120, 0x160, 0x7e8981f4379de7f2, 0, 0x464e495f52414542, 0x4f, 0x9000010001]
    ++ List.replicate 11 0 ++ [0x200000000, 0x2000, 0, 0xf68d62d8673e7c7, 0x3000, 0x140, 0x20,
    0x2000, 0x120, 0x20, 7, 0x100000020, 0x3000, 0, 8, 0x100000020, 0, 0xa15b14dacc1c8caa]).flatMap
    (le · 8)

/-- Its INFO and tags at their addresses moved up by 1 MiB. -/
def sampleMemory : Mem :=
  ((Mem.zeros.blit 0x101000 (slice sampleCapture 96 240)).blit 0x102000
    (slice sampleCapture 288 320)).blit 0x103000 (slice sampleCapture 320 352)

/-- The sample passes on the host, one tag in and one tag out, and stands
in the sample memory. -/
theorem sample_laid :
    ∃ c stream included skipped, parseCapture sampleCapture = .ok c ∧
      evidenceBytes c = .ok (stream, included, skipped) ∧ included.length = 1 ∧ skipped.length = 1 ∧
      (∀ e ∈ c.entries, e.sourcePhys + e.dataSize ≤ 2 ^ 48) ∧ Laid c sampleMemory 0x100000 := by
  have hchecks :
      (match parseCapture sampleCapture with
        | .error _ => false
        | .ok c =>
          (match evidenceBytes c with
            | .error _ => false
            | .ok (_, included, skipped) => included.length == 1 && skipped.length == 1) &&
          decide (sampleMemory.bytes (c.header.infoPhys + 0x100000) 144 = c.info) &&
          decide (c.header.infoPhys + 0x100000 + 144 ≤ 18446744073709551615) &&
          decide (∀ e ∈ c.entries, e.sourcePhys + e.dataSize ≤ 281474976710656 ∧
            sampleMemory.bytes (e.sourcePhys + 0x100000) e.payload.length = e.payload ∧
            e.sourcePhys + 0x100000 + e.dataSize ≤ 18446744073709551615)) = true := by
    decide +kernel
  cases hc : parseCapture sampleCapture with
  | error e => rw [hc] at hchecks; cases hchecks
  | ok c =>
    rw [hc] at hchecks
    simp only [Bool.and_eq_true, decide_eq_true_eq] at hchecks
    obtain ⟨⟨⟨hcounts, hinfo⟩, hend⟩, htags⟩ := hchecks
    cases he : evidenceBytes c with
    | error e => rw [he] at hcounts; cases hcounts
    | ok r =>
      obtain ⟨stream, included, skipped⟩ := r
      rw [he] at hcounts
      simp only [Bool.and_eq_true, beq_iff_eq] at hcounts
      obtain ⟨hin, hout⟩ := hcounts
      exact ⟨c, stream, included, skipped, rfl, he, hin, hout, fun e h => (htags e h).1, hinfo, hend,
        fun e h => (htags e h).2.1, fun e h => (htags e h).2.2⟩

theorem evidence_agrees_sample :
    ∃ c stream included skipped k, parseCapture sampleCapture = .ok c ∧
      evidenceBytes c = .ok (stream, included, skipped) ∧ included.length = 1 ∧ skipped.length = 1 ∧
      (initEx (some ⟨0, 0, false, 0, 0⟩) (c.header.infoPhys + 0x100000) 0x100000).val sampleMemory =
        (.ok, some k) ∧
      (evidence (some k) (some fun fed data => fed ++ data) []).val sampleMemory = (1, stream) := by
  obtain ⟨c, stream, included, skipped, hparse, hevidence, hin, hout, hbelow, hlaid⟩ := sample_laid
  obtain ⟨k, hinit, hfed⟩ := evidence_agrees sampleCapture c stream included skipped sampleMemory
    0x100000 ⟨0, 0, false, 0, 0⟩ hparse hevidence hbelow (by decide) hlaid
  exact ⟨c, stream, included, skipped, k, hparse, hevidence, hin, hout, hinit, hin ▸ hfed⟩

end BearBoot.Bbpctl
