import BearBoot.Machine.Bits
import BearBoot.Machine.Settle
import BearBoot.V2.Parse

/-!
# The C parser accepts exactly the grammar

`parse_accepts` is the theorem: `bbp_v2_parse` answers `BBP_V2_OK` exactly
on the capsules of `WellFormed`, writes the caller's view in no other case,
and reads nothing outside the extent it was given.

The order of the checks carries the proof. A sum of offsets cannot wrap
because both were compared with the extent before; the selection loop of
`validate_padding` visits every span because the overlap loops before it
made them disjoint (`selection_iff`); and the CRC loops read inside the
extent because every payload was bounded by then. So what a stage decides
and what it reads are settled together, stage by stage
(`Checked.Settles`).
-/

namespace BearBoot.V2

open Machine

variable {β : Type} {p i : Nat} {u : Unit}

section Arithmetic

theorem powerOfTwo_iff {v : Nat} : powerOfTwo v ↔ ∃ k, v = 2 ^ k := by
  unfold powerOfTwo
  constructor
  · rintro ⟨hne, hand⟩
    exact (and_pred_eq_zero_iff hne).mp hand
  · rintro ⟨k, rfl⟩
    have hne : 2 ^ k ≠ 0 := Nat.pos_iff_ne_zero.mp (Nat.two_pow_pos k)
    exact ⟨hne, (and_pred_eq_zero_iff hne).mpr ⟨k, rfl⟩⟩

/-- Where neither end wraps, the overlap test is disjointness. -/
theorem not_spanOverlaps_iff {a as b bs : Nat} (ha : a + as < 2 ^ 64) (hb : b + bs < 2 ^ 64) :
    ¬ spanOverlaps a as b bs ↔ Span.Disjoint ⟨a, as⟩ ⟨b, bs⟩ := by
  unfold spanOverlaps
  rw [Nat.mod_eq_of_lt ha, Nat.mod_eq_of_lt hb]
  exact not_overlap_iff

end Arithmetic

/-! ## Reads -/

/-- An event reads nothing outside the `n` bytes at `lo`. -/
def Within (lo n : Nat) : Event → Prop
  | .read a k => lo ≤ a ∧ a + k ≤ lo + n
  | _ => True

section Reads

variable {capsule n dir count : Nat}

theorem read_within {a k : Nat} (hlo : capsule ≤ a) (hhi : a + k ≤ capsule + n) :
    Within capsule n (.read a k) := ⟨hlo, hhi⟩

theorem entry_within {o w : Nat} (hi : i < count) (hend : dir + count * 48 ≤ n) (how : o + w ≤ 48) :
    Within capsule n (.read (directoryEntry capsule dir i + o) w) := by
  unfold directoryEntry
  exact read_within (by omega) (by omega)

variable {m : Mem} {safe : Event → Prop} {P : Prop} {Q : β → Prop} {f : Nat → Check β}

theorem read16_settles (h : safe (.read p 2)) (hf : Checked.Settles safe m (f (get16 m p)) P Q) :
    Checked.Settles safe m (read16 p >>= f) P Q := .read (.look h) hf

theorem read32_settles (h : safe (.read p 4)) (hf : Checked.Settles safe m (f (get32 m p)) P Q) :
    Checked.Settles safe m (read32 p >>= f) P Q := .read (.look h) hf

theorem read64_settles (h : safe (.read p 8)) (hf : Checked.Settles safe m (f (get64 m p)) P Q) :
    Checked.Settles safe m (read64 p >>= f) P Q := .read (.look h) hf

theorem readBytes_settles {f : List UInt8 → Check β} (h : safe (.read p n))
    (hf : Checked.Settles safe m (f (m.bytes p n)) P Q) :
    Checked.Settles safe m (readBytes p n >>= f) P Q := .read (.look h) hf

end Reads

section Values

variable {m : Mem} {capsule n : Nat}

/-- The fields of the `i`-th directory entry, as the C loads them. -/
theorem direntAt_based (m : Mem) (capsule dir i : Nat) :
    direntAt (m.based capsule) (dir + i * 48) = direntAt m (directoryEntry capsule dir i) := by
  refine direntAt_congr fun k _ => ?_
  rw [Mem.based_apply, directoryEntry]
  congr 1
  omega

theorem checkZero_settles {lo hi : Nat} (hhi : hi ≤ n) :
    Checked.Settles (Within capsule n) m (checkZero capsule lo hi)
      (∀ x, lo ≤ x → x < hi → m.based capsule x = 0) fun _ => True := by
  unfold checkZero
  split
  next h =>
    refine readBytes_settles (read_within (by omega) (by omega)) (.refuse ?_)
    rw [Mem.exists_bytes_ne_zero]
    constructor
    · intro hno x hlo hhi
      by_contra hne
      refine hno ⟨x - lo, by omega, ?_⟩
      rwa [Nat.add_assoc, Nat.add_sub_cancel' hlo]
    · rintro hall ⟨i, hi, hne⟩
      rw [Nat.add_assoc] at hne
      exact hne (hall (lo + i) (by omega) (by omega))
  next h => exact .answer (fun x hlo hhi => absurd hhi (by omega)) trivial

end Values

/-! ## Padding -/

section Stages

variable {m : Mem} {capsule n : Nat}

/-- One selection of the source is one selection over the active spans. -/
theorem selectSpan_val (hextent : 0 < n) (cursor : Nat) :
    (selectSpan capsule n (directoryOffset (m.based capsule)) (entryCount (m.based capsule))
      cursor).val m = pick (active (m.based capsule)) n cursor := by
  have hbody : ∀ best : Span, ∀ i, (do
      let start ← load64 (directoryEntry capsule (directoryOffset (m.based capsule)) i + 16)
      if cursor ≤ start ∧ start < best.start then do
        let size ← load64 (directoryEntry capsule (directoryOffset (m.based capsule)) i + 24)
        pure (⟨start, size⟩ : Span)
      else pure best : Traced Event Span).val m =
        better cursor best (dirent (m.based capsule) i).span := by
    intro best i
    rw [dirent, direntAt_based]
    simp only [Traced.val_bind, Traced.val_ite, Traced.val_pure, load64_val]
    rfl
  unfold selectSpan
  rw [Traced.forUpTo_val]
  simp only [hbody]
  exact foldl_dirents hextent cursor

theorem selectSpan_within {dir count : Nat} (hend : dir + count * 48 ≤ n) (cursor : Nat) :
    Traced.Logs (Within capsule n) (selectSpan capsule n dir count cursor) m := by
  refine .forUpTo fun i hi best => ?_
  refine .bind (.look (entry_within hi hend (by decide))) ?_
  refine .ite (fun _ => ?_) fun _ => .pure _
  exact .bind (.look (entry_within hi hend (by decide))) (.pure _)

variable (h : HeaderOk (m.based capsule) n)

include h

/-- One turn gets through when it finds a span and the gap before it is
zero, and leaves the cursor behind the span. -/
theorem paddingTurn_settles (cursor : Nat)
    (hin : ∀ s ∈ active (m.based capsule), s.stop ≤ n) :
    Checked.Settles (Within capsule n) m
      (paddingTurn capsule n (directoryOffset (m.based capsule)) (entryCount (m.based capsule)) cursor)
      ((pick (active (m.based capsule)) n cursor).size ≠ 0 ∧
        ∀ x, cursor ≤ x → x < (pick (active (m.based capsule)) n cursor).start → m.based capsule x = 0)
      (· = advance (active (m.based capsule)) n cursor) := by
  have hlow := h.low
  have hhigh := h.high
  have hstop := pick_stop_le hin cursor
  unfold Span.stop at hstop
  unfold maxExtent at hhigh
  refine .read (selectSpan_within h.dirEnd cursor) ?_
  rw [selectSpan_val (by omega)]
  refine .test Iff.rfl (·.1) fun hsize => ?_
  refine .step (checkZero_settles (by omega)) (·.2) fun hzero _ _ => .answer ⟨hsize, hzero⟩ ?_
  exact Nat.mod_eq_of_lt (by omega)

/-- After disjointness, `validate_padding` decides the gaps. -/
theorem validatePadding_settles
    (hgood : ∀ i < entryCount (m.based capsule), EntryGood (m.based capsule) n i) :
    Checked.Settles (Within capsule n) m
      (validatePadding capsule n (directoryOffset (m.based capsule)) (entryCount (m.based capsule)))
      (Gaps (fun x => m.based capsule x = 0) (active (m.based capsule)) 0 n) fun _ => True := by
  obtain ⟨hsize, hin, hpair⟩ := h.active_ok hgood
  refine .congr (selection_iff hsize hin hpair) ?_
  rw [active_length]
  refine .step (.forUpTo _ (fun i cursor => cursor = (advance (active (m.based capsule)) n)^[i] 0) rfl
    ?_) And.left ?_
  · rintro i _ _ _ rfl
    rw [Function.iterate_succ_apply']
    exact paddingTurn_settles h _ hin
  · rintro hsteps _ rfl
    exact .congr (and_iff_right hsteps).symm (checkZero_settles (Nat.le_refl n))

/-! ## Entries -/

theorem checkPriors_settles {d : Dirent}
    (hi : i ≤ entryCount (m.based capsule)) (hd : d.offset + d.size ≤ n)
    (hpriors : ∀ j < i, EntryGood (m.based capsule) n j) :
    Checked.Settles (Within capsule n) m
      (checkPriors capsule (directoryOffset (m.based capsule)) d.offset d.size i)
      (∀ j < i, d.span.Disjoint (dirent (m.based capsule) j).span) fun _ => True := by
  have hhigh := h.high
  unfold maxExtent at hhigh
  refine .forUpTo _ (fun _ _ => True) trivial fun j hj _ _ _ => ?_
  have hj' := (hpriors j hj).ok.inside
  rw [dirent, direntAt_based] at hj' ⊢
  refine read64_settles (entry_within (by omega) h.dirEnd (by decide))
    (read64_settles (entry_within (by omega) h.dirEnd (by decide)) (.refuse ?_))
  exact not_spanOverlaps_iff (by omega) (Nat.lt_of_le_of_lt hj' (by omega))

/-- An entry's turn decides the entry, behind good ones. -/
theorem checkEntry_settles (hi : i < entryCount (m.based capsule))
    (hpriors : ∀ j < i, EntryGood (m.based capsule) n j) :
    Checked.Settles (Within capsule n) m
      (checkEntry capsule n (directoryOffset (m.based capsule)) (entryCount (m.based capsule) * 48) i
        (n + payloadBytes (m.based capsule) i))
      (EntryGood (m.based capsule) n i) (· = n + payloadBytes (m.based capsule) (i + 1)) := by
  have hend := h.dirEnd
  have hhigh := h.high
  have hbound : n < 2 ^ 64 := Nat.lt_of_le_of_lt hhigh (by decide)
  have hwork : n + payloadBytes (m.based capsule) i ≤ maxCrcWork := by
    cases i with
    | zero => exact Nat.le_trans hhigh (by decide)
    | succ i => exact (hpriors i (Nat.lt_succ_self i)).work
  have read : ∀ {o w}, o + w ≤ 48 → Within capsule n
      (.read (directoryEntry capsule (directoryOffset (m.based capsule)) i + o) w) := entry_within hi hend
  have hfields := direntAt_based m capsule (directoryOffset (m.based capsule)) i
  change dirent (m.based capsule) i = _ at hfields
  have hoffset : _ = get64 m (_ + 16) := congrArg Dirent.offset hfields
  have hsize : _ = get64 m (_ + 24) := congrArg Dirent.size hfields
  refine read64_settles (read (by decide)) (read64_settles (read (by decide))
    (read32_settles (read (by decide)) (read16_settles (read (by decide))
    (read32_settles (read (by decide)) ?_))))
  refine .test (by rw [hfields, not_or, not_not, not_not]; rfl)
    (fun hg => And.intro hg.ok.reserved0 hg.ok.reserved1) fun hreserved => ?_
  refine .test ?_ (fun hg => And.intro hg.ok.power (And.intro hg.ok.small hg.ok.aligned)) fun halign => ?_
  · rw [hfields, not_or, not_or, not_not, not_not, not_lt, powerOfTwo_iff]
    refine and_congr_right ?_
    rintro ⟨k, hk⟩
    change _ ∧ _ &&& (get32 m _ - 1) = 0 ↔ get32 m _ ≤ 4096 ∧ get32 m _ ∣ get64 m _
    rw [hk, and_pred_two_pow_eq_zero]
  refine .test (by rw [hsize]) (·.ok.nonempty) fun hne => ?_
  refine .test (by rw [hoffset, hsize]; omega) (·.ok.inside) fun hinside => ?_
  have hprior := checkPriors_settles h hi.le hinside hpriors
  rw [hoffset, hsize] at hinside hprior
  refine .test ?_ (fun hg => And.intro hg.header hg.directory) fun hspans => ?_
  · rw [Dirent.span, hoffset, hsize, not_or]
    exact and_congr (not_spanOverlaps_iff (by omega) (by decide))
      (not_spanOverlaps_iff (by omega) (by omega))
  refine .step hprior (·.priors) fun hprior _ _ => ?_
  refine .test ?_ (·.work) fun hwork => ?_
  · rw [payloadBytes_succ, hsize]
    omega
  refine .answer ⟨⟨hreserved.1, hreserved.2, halign.1, halign.2.1, halign.2.2, hne, ?_⟩, hspans.1, hspans.2,
    hprior, hwork⟩ ?_
  · rw [hoffset, hsize]
    exact hinside
  · rw [payloadBytes_succ, hsize, Nat.add_assoc]

/-- The entry loop gets through exactly on good entries. -/
theorem checkEntries_settles :
    Checked.Settles (Within capsule n) m
      (forUpTo (checkEntry capsule n (directoryOffset (m.based capsule))
        (entryCount (m.based capsule) * 48)) (entryCount (m.based capsule)) n)
      (∀ i < entryCount (m.based capsule), EntryGood (m.based capsule) n i)
      (· = n + payloadBytes (m.based capsule) (entryCount (m.based capsule))) := by
  refine .forUpTo _ (fun i work => work = n + payloadBytes (m.based capsule) i) rfl ?_
  rintro i hi hpriors _ rfl
  exact checkEntry_settles h hi hpriors

/-! ## The whole parser -/

theorem checkPayloadCrcs_settles
    (hgood : ∀ i < entryCount (m.based capsule), EntryGood (m.based capsule) n i) :
    Checked.Settles (Within capsule n) m
      (forUpTo (fun i _ => checkPayloadCrc capsule (directoryOffset (m.based capsule)) i)
        (entryCount (m.based capsule)) ())
      (∀ i < entryCount (m.based capsule),
        crc64 (payload (m.based capsule) (dirent (m.based capsule) i)) =
          (dirent (m.based capsule) i).checksum) fun _ => True := by
  refine .forUpTo _ (fun _ _ => True) trivial fun i hi _ _ _ => ?_
  have read : ∀ {o w}, o + w ≤ 48 → Within capsule n
      (.read (directoryEntry capsule (directoryOffset (m.based capsule)) i + o) w) :=
    entry_within hi h.dirEnd
  have hinside := (hgood i hi).ok.inside
  unfold payload
  rw [dirent, direntAt_based] at hinside ⊢
  rw [Mem.bytes_based]
  refine read64_settles (read (by decide)) (read64_settles (read (by decide))
    (readBytes_settles (read_within (Nat.le_add_right _ _) ?_) (read64_settles (read (by decide))
    (.refuse not_not))))
  rw [Nat.add_assoc]
  exact Nat.add_le_add_left hinside capsule

/-- From the entry loop on, the parser decides the rest of the grammar. -/
theorem checkBody_settles :
    Checked.Settles (Within capsule n) m
      (checkBody capsule n n (directoryOffset (m.based capsule)) (entryCount (m.based capsule)))
      (BodyOk (m.based capsule) n) fun _ => True := by
  have hlow := h.low
  refine .step (checkEntries_settles h) (·.entries) fun hgood _ _ => ?_
  refine .step (validatePadding_settles h hgood) (·.padding) fun hpad _ _ => ?_
  refine .read (.bind (.look (read_within (by omega) (by omega)))
    (.bind (.look (read_within (by omega) (by omega))) (.pure _))) ?_
  refine read64_settles (read_within (by omega) (by omega)) (.test ?_ (·.crc) fun hcrc => ?_)
  · rw [crcWithZeroChecksum, loadCrcSpliced_val, not_not, get64_based, crcSpliced_based]
    rfl
  exact .congr ⟨fun hall => ⟨hgood, hpad, hcrc, hall⟩, (·.payloadCrc)⟩ (checkPayloadCrcs_settles h hgood)

end Stages

/-- The view the parser publishes. -/
def viewOf (c : Mem) (capsule n : Nat) : View :=
  ⟨capsule, n, directoryOffset c, get32 c 16, entryCount c⟩

/-- The parser gets through exactly on capsules. -/
theorem parseView_settles {m : Mem} {capsule n : Nat} :
    Checked.Settles (Within capsule n) m (parseView capsule n) (WellFormed (m.based capsule) n)
      (· = viewOf (m.based capsule) capsule n) := by
  refine .test (by rw [not_or, not_lt, not_lt]) (fun h => And.intro h.low h.high) fun ⟨hlow, hhigh⟩ => ?_
  have read : ∀ o w, o + w ≤ 64 → Within capsule n (.read (capsule + o) w) :=
    fun o w how => read_within (by omega) (by omega)
  refine readBytes_settles (read 0 8 (by decide)) (.test ?_ (·.magic) fun hmagic => ?_)
  · rw [not_not, Mem.bytes_based]
    rfl
  refine read16_settles (read 8 2 (by decide)) (read16_settles (read 10 2 (by decide)) ?_)
  refine .test (by rw [not_or, not_not, not_not, get16_based, get16_based])
    (fun h => And.intro h.major h.minor) fun hversion => ?_
  refine read16_settles (read 12 2 (by decide)) (read16_settles (read 14 2 (by decide))
    (read32_settles (read 16 4 (by decide)) (read64_settles (read 48 8 (by decide))
    (read64_settles (read 56 8 (by decide)) ?_))))
  refine .test (by simp only [not_or, not_not, ne_eq, get16_based, get32_based, get64_based])
    (fun h => And.intro h.headerSize (And.intro h.direntSize (And.intro h.flags
      (And.intro h.reserved0 h.reserved1)))) fun hformat => ?_
  refine read64_settles (read 24 8 (by decide)) (.test ?_ (·.total) fun htotal => ?_)
  · rw [totalSize, get64_based]
    omega
  rw [show get64 m (capsule + 24) = n from (get64_based ..).symm.trans htotal]
  refine read32_settles (read 20 4 (by decide)) ?_
  rw [get32_based, get32_based]
  refine .test not_lt (·.count) fun hcount => ?_
  refine read64_settles (read 32 8 (by decide)) ?_
  rw [get64_based]
  refine .test (not_not.trans (and_pred_two_pow_eq_zero (k := 3))) (·.dirAligned) fun haligned => ?_
  refine .test (by rw [not_and, not_or, not_not, not_not]; rfl) (·.empty) fun hempty => ?_
  refine .test ?_ (fun h => And.intro h.dirStart h.dirEnd) fun hdir => ?_
  · change ¬ (directoryOffset (m.based capsule) < 64 ∨ _ < directoryOffset (m.based capsule) ∨
      _ - directoryOffset (m.based capsule) < entryCount (m.based capsule) * 48) ↔ _
    omega
  have hheader : HeaderOk (m.based capsule) n := ⟨hlow, hhigh, hmagic, hversion.1, hversion.2, hformat.1,
    hformat.2.1, hformat.2.2.1, hformat.2.2.2.1, hformat.2.2.2.2, htotal, hcount, hempty, haligned, hdir.1,
    hdir.2⟩
  refine .step (checkBody_settles hheader) (fun h => (wellFormed_iff.mp h).2) fun hbody _ _ => ?_
  exact .answer (wellFormed_iff.mpr ⟨hheader, hbody⟩) rfl

/-! ## The entries of a view -/

/-- What `bbp_v2_get_entry` publishes for a directory entry. -/
def entryViewOf (capsule : Nat) (d : Dirent) : EntryView :=
  ⟨d.type, d.flags, d.version, d.alignment, d.offset, d.size, d.checksum, capsule + d.offset⟩

/-- On the view of a capsule every index below the count answers its
directory entry, and no other index answers anything. -/
theorem getEntryView_settles {m : Mem} {capsule n : Nat} {safe : Event → Prop}
    (h : WellFormed (m.based capsule) n) (hread : i < entryCount (m.based capsule) → ∀ o k, o + k ≤ 48 →
      safe (.read (directoryEntry capsule (directoryOffset (m.based capsule)) i + o) k)) :
    Checked.Settles safe m (getEntryView (viewOf (m.based capsule) capsule n) i)
      (i < entryCount (m.based capsule)) (· = entryViewOf capsule (dirent (m.based capsule) i)) := by
  have hlow := h.low
  have hhigh := h.high
  have hcount := h.count
  have hstart := h.dirStart
  have hend := h.dirEnd
  unfold getEntryView viewOf
  dsimp only
  refine .test (by omega) id fun hi => ?_
  have read := hread hi
  have hinside := (h.entries i hi).inside
  rw [dirent, direntAt_based] at hinside ⊢
  change get64 m (_ + 16) + get64 m (_ + 24) ≤ n at hinside
  refine .test Iff.rfl (fun _ => by omega) fun _ => ?_
  refine read64_settles (read 16 8 (by decide)) (read64_settles (read 24 8 (by decide))
    (.test Iff.rfl (fun _ => by omega) fun _ => ?_))
  exact read64_settles (read 0 8 (by decide)) (read32_settles (read 8 4 (by decide))
    (read16_settles (read 12 2 (by decide)) (read64_settles (read 32 8 (by decide))
    (read32_settles (read 40 4 (by decide)) (.answer hi rfl)))))

/-! ## The calls -/

section Publish

variable {α : Type} {m : Mem} {safe : Event → Prop} {P : Prop} {Q : α → Prop} {x : Check α} {out : Option α}

theorem publish_val_ok {a : α} (h : x.val m = .ok a) : (publish x out).val m = (.ok (), some a) := by
  have hval : Traced.val (show Traced Event (Except Error α) from x) m = .ok a := h
  rw [publish, Traced.val_bind, hval]
  rfl

theorem publish_val_error {e : Error} (h : x.val m = .error e) :
    (publish x out).val m = (.error e, out) := by
  have hval : Traced.val (show Traced Event (Except Error α) from x) m = .error e := h
  rw [publish, Traced.val_bind, hval]
  rfl

theorem publish_logs (h : Checked.Logs safe x m) : Traced.Logs safe (publish x out) m := by
  refine .bind h ?_
  split
  · exact .pure _
  · exact .pure _

/-- What is not accepted is not written. -/
theorem publish_kept (h : ((publish x out).val m).1 ≠ .ok ()) : ((publish x out).val m).2 = out := by
  cases hx : x.val m with
  | ok a =>
    rw [publish_val_ok hx] at h
    exact absurd rfl h
  | error e => rw [publish_val_error hx]

theorem publish_ok_iff (h : Checked.Settles safe m x P Q) : ((publish x out).val m).1 = .ok () ↔ P := by
  rw [← h.outcome.ok_iff]
  cases hx : x.val m with
  | ok a =>
    rw [publish_val_ok hx]
    exact iff_of_true rfl ⟨a, rfl⟩
  | error e =>
    rw [publish_val_error hx]
    exact ⟨(fun hok => by cases hok), (fun ⟨_, ha⟩ => by cases ha)⟩

theorem publish_post {a : α} (h : Checked.Settles safe m x P Q)
    (ha : (publish x out).val m = (.ok (), some a)) : Q a := by
  cases hx : x.val m with
  | ok a' =>
    rw [publish_val_ok hx] at ha
    cases ha
    exact h.outcome.post hx
  | error e =>
    rw [publish_val_error hx] at ha
    cases ha

end Publish

section Calls

variable {m : Mem} {capsule n : Nat}

theorem parse_val_ok {out : View} (hne : capsule ≠ 0) (h : WellFormed (m.based capsule) n) :
    (parse capsule n (some out)).val m = (.ok (), some (viewOf (m.based capsule) capsule n)) := by
  unfold parse
  rw [if_neg (not_or.mpr ⟨hne, Option.some_ne_none out⟩)]
  exact publish_val_ok (parseView_settles.ok_iff.mpr ⟨h, rfl⟩)

theorem parse_wellFormed {out : Option View} (h : ((parse capsule n out).val m).1 = .ok ()) :
    capsule ≠ 0 ∧ WellFormed (m.based capsule) n := by
  unfold parse at h
  split at h
  next => cases h
  next hnull => exact ⟨(not_or.mp hnull).1, (publish_ok_iff parseView_settles).mp h⟩

theorem getEntry_val_ok {out : EntryView} (hne : capsule ≠ 0)
    (h : WellFormed (m.based capsule) n) (hi : i < entryCount (m.based capsule)) :
    (getEntry (some (viewOf (m.based capsule) capsule n)) i (some out)).val m =
      (.ok (), some (entryViewOf capsule (dirent (m.based capsule) i))) := by
  have hdata : (viewOf (m.based capsule) capsule n).data ≠ 0 := hne
  unfold getEntry
  dsimp only
  rw [if_neg (not_or.mpr ⟨hdata, Option.some_ne_none out⟩)]
  have hview : Checked.Settles (fun _ => True) m _ _ _ := getEntryView_settles (i := i) h fun _ _ _ _ => trivial
  exact publish_val_ok (hview.ok_iff.mpr ⟨hi, rfl⟩)

theorem getEntry_val_count {out : EntryView} (hne : capsule ≠ 0)
    (hi : entryCount (m.based capsule) ≤ i) :
    (getEntry (some (viewOf (m.based capsule) capsule n)) i (some out)).val m =
      (.error .count, some out) := by
  have hdata : (viewOf (m.based capsule) capsule n).data ≠ 0 := hne
  have hview : (getEntryView (viewOf (m.based capsule) capsule n) i).val m = .error .count := by
    have hcount : (viewOf (m.based capsule) capsule n).entryCount ≤ i := hi
    unfold getEntryView
    rw [Checked.val_bind, Checked.refuseIf_val, refuse, if_pos (Or.inr hcount)]
    rfl
  unfold getEntry
  dsimp only
  rw [if_neg (not_or.mpr ⟨hdata, Option.some_ne_none out⟩)]
  exact publish_val_error hview

end Calls

/-- `bbp_v2_parse` accepts exactly the grammar, changes the caller's view
only when it accepts, and reads nothing outside the extent. -/
theorem parse_accepts (m : Mem) (capsule extent : Nat) (out : Option View) :
    (((parse capsule extent out).val m).1 = .ok () ↔
      capsule ≠ 0 ∧ out ≠ none ∧ WellFormed (m.based capsule) extent) ∧
    (((parse capsule extent out).val m).1 ≠ .ok () → ((parse capsule extent out).val m).2 = out) ∧
    Traced.Logs (Within capsule extent) (parse capsule extent out) m := by
  refine ⟨⟨fun h => ?_, ?_⟩, ?_, ?_⟩
  · obtain ⟨hc, hwf⟩ := parse_wellFormed h
    refine ⟨hc, ?_, hwf⟩
    rintro rfl
    rw [parse, if_pos (Or.inr rfl)] at h
    cases h
  · rintro ⟨hc, ho, hwf⟩
    obtain ⟨v, rfl⟩ := Option.ne_none_iff_exists'.mp ho
    rw [parse_val_ok hc hwf]
  · unfold parse
    split
    next => exact fun _ => rfl
    next => exact publish_kept
  · unfold parse
    exact .ite (fun _ => .pure _) fun _ => publish_logs parseView_settles.logs

end BearBoot.V2
