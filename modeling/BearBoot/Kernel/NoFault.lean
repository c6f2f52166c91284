import BearBoot.Kernel.Walk

/-!
# No fault: where the parser reads

The handoff is hostile: INFO, every length and every link are the
producer's. What the parser promises is that it reads nothing but INFO and
the window the consumer declared, translated by the offset of its context
(`Event.Inside`), that no translation wraps, and that a walk looks at no
more than `BBP_MAX_TAGS` tags, cyclic chains included.

The window is checked on PHYSICAL addresses and the reads happen at
TRANSLATED ones. With a nonzero hint the two differ by the consumer's own
number, and the promise is about the arena the consumer mapped
(`initBounded_noFault`). With hint zero the initialiser itself still reads
at identity, but a well-sized HHDM tag it finds there supplies the offset
of every later walk (`initBounded_zeroHint`), so the later reads are in
the arena shifted by a number the producer chose. `hhdmTag_moves_reads`
is a handoff where that number takes the next lookup out of the arena.
-/

namespace BearBoot

open Machine

variable {σ : Type}

/-- An event keeps inside INFO and the window `[lo, hi)` translated by
`off`: a read does, a translation is exact, and a delivered tag is one of
the window whose CRC matches. -/
def Event.Inside (m : Mem) (info lo hi off : Nat) : Event → Prop
  | .read a n =>
    (info ≤ a ∧ a + n ≤ info + 144) ∨
      (lo + off ≤ a ∧ a + n ≤ hi + off ∧ a + n < 2 ^ 64)
  | .inspect _ => True
  | .translate p v => v = p + off ∧ v < 2 ^ 64
  | .deliver t =>
    ∃ p, t = p + off ∧ lo ≤ p ∧ p + tagSize m t ≤ hi ∧ t + tagSize m t < 2 ^ 64 ∧
      Kernel.CrcOk m t

namespace Kernel

theorem load_inspected (p w : Nat) (m : Mem) : Traced.count Event.isInspect (loadLE p w) m = 0 := (rfl)

theorem loadBytes_inspected (p n : Nat) (m : Mem) : Traced.count Event.isInspect (loadBytes p n) m = 0 := (rfl)

/-- The reader keeps inside, and looks at no more tags than a walk may. -/
structure NoFault {α : Type} (m : Mem) (info lo hi off : Nat) (x : Traced Event α) : Prop where
  inside : Traced.Logs (Event.Inside m info lo hi off) x m
  bounded : Traced.count Event.isInspect x m ≤ 1024

/-! ## One tag -/

section Tag

variable {k : Kctx} {m : Mem} {info p : Nat}

/-- Inside an accepted tag of a windowed context, reads are inside. -/
theorem read_inside (hwin : k.walkLo < k.walkHi) (hok : TagOk k m p) {a n : Nat}
    (hlo : p + k.hhdmOffset ≤ a)
    (hhi : a + n ≤ p + k.hhdmOffset + tagSize m (p + k.hhdmOffset)) :
    Event.Inside m info k.walkLo k.walkHi k.hhdmOffset (.read a n) := by
  have hw := hok.window hwin
  have hnowrap := hok.nowrap
  exact Or.inr ⟨by omega, by omega, by omega⟩

theorem tagAt_logs (hwin : k.walkLo < k.walkHi) (cur : Nat) :
    Traced.Logs (Event.Inside m info k.walkLo k.walkHi k.hhdmOffset) (tagAt k cur) m := by
  refine .bind (.emit trivial) ?_
  refine .ite (fun _ => .pure _) fun _ => ?_
  refine .ite (fun _ => .pure _) fun hhdr => ?_
  have hhdr' : tagRegionOk k cur 32 = true := by simpa using hhdr
  obtain ⟨hnz, _, hnowrap, hw⟩ := headerOk_iff.mp hhdr'
  have hw := hw hwin
  have hvirt : virtOf k cur = cur + k.hhdmOffset := virtOf_eq hnz (by omega)
  refine .bind ?_ ?_
  · exact .bind (.emit ⟨hvirt, by omega⟩) (.pure _)
  · refine .bind (.look (Or.inr ?_)) ?_
    · simp only [physToVirt, Traced.val_bind, Traced.val_pure, hvirt]
      exact ⟨by omega, by omega, by omega⟩
    · exact .ite (fun _ => .pure _) fun _ =>
        .ite (fun _ => .pure _) fun _ => .pure _

theorem tagAt_inspected (k : Kctx) (m : Mem) (cur : Nat) : Traced.count Event.isInspect (tagAt k cur) m = 1 := by
  have hread : ∀ p, Traced.count Event.isInspect (load32 p) m = 0 := fun p => load_inspected p 4 m
  simp only [tagAt, physToVirt, Traced.count_bind, Traced.count_emit, Traced.count_ite,
    Traced.count_pure, Traced.val_bind, Traced.val_pure, hread, Event.isInspect, if_true,
    Bool.false_eq_true, if_false, ite_self]

theorem tagCrcOk_logs (hwin : k.walkLo < k.walkHi) (hok : TagOk k m p) :
    Traced.Logs (Event.Inside m info k.walkLo k.walkHi k.hhdmOffset)
      (tagCrcOk (p + k.hhdmOffset)) m := by
  have hlo := hok.sizeLow
  refine .bind (.look (read_inside hwin hok (by omega) (by omega))) ?_
  refine .bind ?_ ?_
  · refine .ite (fun _ => .pure _) fun _ => ?_
    refine .bind (.look (read_inside hwin hok (by omega) (by omega))) ?_
    refine .bind (.look (read_inside hwin hok (by omega) ?_))
      (.pure _)
    simp only [load32_val]
    change _ + (tagSize m (p + k.hhdmOffset) - 24 - 8) ≤ _
    omega
  · exact .bind (.look (read_inside hwin hok (by omega) (by omega)))
      (.pure _)

theorem crcGate_logs (hwin : k.walkLo < k.walkHi) (hok : TagOk k m p) :
    Traced.Logs (Event.Inside m info k.walkLo k.walkHi k.hhdmOffset)
      (crcGate k (p + k.hhdmOffset)) m :=
  .ite (fun _ => tagCrcOk_logs hwin hok) fun _ => .pure _

theorem crcGate_inspected (k : Kctx) (m : Mem) (t : Nat) : Traced.count Event.isInspect (crcGate k t) m = 0 := by
  simp only [crcGate, tagCrcOk, crcSkip, loadCrcSpliced, load32, load64, loadLE,
    loadBytes, Traced.count_bind, Traced.count_ite, Traced.count_pure, Traced.count_look,
    Event.isInspect, Bool.false_eq_true, if_false, ite_self]

end Tag

/-! ## The loops -/

section Loops

variable {k : Kctx} {m : Mem} {info : Nat}

theorem findTagLoop_logs (hwin : k.walkLo < k.walkHi) (id steps cur : Nat) :
    Traced.Logs (Event.Inside m info k.walkLo k.walkHi k.hhdmOffset)
      (findTagLoop k id steps cur) m := by
  induction steps generalizing cur with
  | zero => exact .pure _
  | succ steps ih =>
    rw [findTagLoop]
    refine .ite (fun _ => .pure _) fun _ => ?_
    refine .bind (tagAt_logs hwin cur) ?_
    rw [tagAt_val]
    by_cases hok : TagOk k m cur
    · rw [if_pos hok]
      have hlo := hok.sizeLow
      have next : Traced.Logs (Event.Inside m info k.walkLo k.walkHi k.hhdmOffset)
          (load64 (cur + k.hhdmOffset + 16) >>= fun next => findTagLoop k id steps next) m :=
        .bind (.look (read_inside hwin hok (by omega) (by omega))) (ih _)
      refine .bind (.look (read_inside hwin hok (by omega) (by omega))) ?_
      refine .ite (fun _ => ?_) fun _ => next
      refine .bind (crcGate_logs hwin hok) ?_
      exact .ite (fun _ => .pure _) fun _ => next
    · rw [if_neg hok]
      exact .pure _

theorem findTagLoop_inspected (k : Kctx) (m : Mem) (id steps cur : Nat) :
    Traced.count Event.isInspect (findTagLoop k id steps cur) m ≤ steps := by
  induction steps generalizing cur with
  | zero => exact Nat.le_refl _
  | succ steps ih =>
    rw [findTagLoop, Traced.count_ite]
    split
    · exact Nat.zero_le _
    · rw [Traced.count_bind, tagAt_val, tagAt_inspected]
      by_cases hok : TagOk k m cur
      · have next : Traced.count Event.isInspect (load64 (cur + k.hhdmOffset + 16) >>= fun next =>
            findTagLoop k id steps next) m ≤ steps := by
          rw [Traced.count_bind, load64, load_inspected, Nat.zero_add]
          exact ih _
        rw [if_pos hok]
        simp only [Traced.count_bind, load64, load_inspected, Traced.count_ite, crcGate_inspected,
          Traced.count_pure, Nat.zero_add] at next ⊢
        split
        · split <;> omega
        · omega
      · rw [if_neg hok, Traced.count_pure]
        omega

/-- What a callback may be given: a tag of the walk that passed. -/
theorem forEachLoop_logs {cb : TagCb σ} (hwin : k.walkLo < k.walkHi)
    (hverify : k.verifyTagCrc = true)
    (hcb : ∀ p user, TagOk k m p → Traced.Logs
      (Event.Inside m info k.walkLo k.walkHi k.hhdmOffset) (cb (p + k.hhdmOffset) user) m)
    (steps cur n : Nat) (user : σ) :
    Traced.Logs (Event.Inside m info k.walkLo k.walkHi k.hhdmOffset)
      (forEachLoop k cb steps cur n user) m := by
  induction steps generalizing cur n user with
  | zero => exact .pure _
  | succ steps ih =>
    rw [forEachLoop]
    refine .ite (fun _ => .pure _) fun _ => ?_
    refine .bind (tagAt_logs hwin cur) ?_
    rw [tagAt_val]
    by_cases hok : TagOk k m cur
    · rw [if_pos hok]
      have hlo := hok.sizeLow
      have next : ∀ n user, Traced.Logs (Event.Inside m info k.walkLo k.walkHi k.hhdmOffset)
          (load64 (cur + k.hhdmOffset + 16) >>= fun next =>
            forEachLoop k cb steps next n user) m := fun n user =>
        .bind (.look (read_inside hwin hok (by omega) (by omega))) (ih _ _ _)
      refine .bind (crcGate_logs hwin hok) ?_
      rw [crcGate_val hok]
      refine .ite (fun _ => next n user) fun hgood => ?_
      have hpass : Passes k m (cur + k.hhdmOffset) := by simpa using hgood
      have hw := hok.window hwin
      have hnowrap := hok.nowrap
      refine .bind (Traced.Logs.emit
        ⟨cur, rfl, hw.1, hw.2, hnowrap, hpass hverify⟩) ?_
      refine .bind (hcb cur user hok) ?_
      exact .ite (fun _ => .pure _) fun _ => next _ _
    · rw [if_neg hok]
      exact .pure _

theorem forEachLoop_inspected {cb : TagCb σ} {k : Kctx} {m : Mem}
    (hcb : ∀ t user, Traced.count Event.isInspect (cb t user) m = 0) (steps cur n : Nat) (user : σ) :
    Traced.count Event.isInspect (forEachLoop k cb steps cur n user) m ≤ steps := by
  induction steps generalizing cur n user with
  | zero => exact Nat.le_refl _
  | succ steps ih =>
    rw [forEachLoop, Traced.count_ite]
    split
    · exact Nat.zero_le _
    · rw [Traced.count_bind, tagAt_val, tagAt_inspected]
      by_cases hok : TagOk k m cur
      · have next : ∀ n user, Traced.count Event.isInspect (load64 (cur + k.hhdmOffset + 16) >>= fun next =>
            forEachLoop k cb steps next n user) m ≤ steps := by
          intro n user
          rw [Traced.count_bind, load64, load_inspected, Nat.zero_add]
          exact ih _ _ _
        rw [if_pos hok]
        simp only [Traced.count_bind, load64, load_inspected, Traced.count_ite, crcGate_inspected,
          Traced.count_pure, Traced.count_emit, Event.isInspect, Bool.false_eq_true, if_false, hcb,
          Nat.zero_add] at next ⊢
        split
        · have := next n user
          omega
        · split
          · omega
          · have := next (n + 1) ((cb (cur + k.hhdmOffset) user).val m).2
            omega
      · rw [if_neg hok, Traced.count_pure]
        omega

end Loops

/-! ## The calls a consumer makes -/

section Calls

variable {k : Kctx} {m : Mem}

/-- A field of INFO is read inside INFO. -/
theorem info_inside {lo hi off info d n : Nat} (h : d + n ≤ 144) :
    Event.Inside m info lo hi off (.read (info + d) n) :=
  Or.inl ⟨by omega, by omega⟩

theorem findTag_noFault (hwin : k.walkLo < k.walkHi) (id : Nat) :
    NoFault m k.info k.walkLo k.walkHi k.hhdmOffset (findTag (some k) id) := by
  by_cases hk : k.info = 0
  · rw [findTag, if_pos hk]
    exact ⟨.pure _, Nat.zero_le _⟩
  · rw [findTag, if_neg hk]
    refine ⟨?_, ?_⟩
    · exact .bind (.look (info_inside (by omega)))
        (findTagLoop_logs hwin id maxTags _)
    · rw [Traced.count_bind, load64, load_inspected, Nat.zero_add]
      exact findTagLoop_inspected k m id maxTags _

theorem forEachTag_noFault {cb : TagCb σ} (hwin : k.walkLo < k.walkHi)
    (hverify : k.verifyTagCrc = true)
    (hcb : ∀ p user, TagOk k m p → Traced.Logs
      (Event.Inside m k.info k.walkLo k.walkHi k.hhdmOffset) (cb (p + k.hhdmOffset) user) m)
    (hcount : ∀ t user, Traced.count Event.isInspect (cb t user) m = 0) (user : σ) :
    NoFault m k.info k.walkLo k.walkHi k.hhdmOffset (forEachTag (some k) (some cb) user) := by
  by_cases hk : k.info = 0
  · rw [forEachTag, if_pos hk]
    exact ⟨.pure _, Nat.zero_le _⟩
  · rw [forEachTag, if_neg hk]
    refine ⟨?_, ?_⟩
    · exact .bind (.look (info_inside (by omega)))
        (forEachLoop_logs hwin hverify hcb maxTags _ 0 user)
    · rw [Traced.count_bind, load64, load_inspected, Nat.zero_add]
      exact forEachLoop_inspected hcount maxTags _ 0 user

theorem evidence_noFault (hwin : k.walkLo < k.walkHi) (hverify : k.verifyTagCrc = true)
    (update : σ → List UInt8 → σ) (state : σ) :
    NoFault m k.info k.walkLo k.walkHi k.hhdmOffset (evidence (some k) (some update) state) := by
  by_cases hk : k.info = 0
  · rw [evidence, if_pos hk]
    exact ⟨.pure _, Nat.zero_le _⟩
  · have hcb : ∀ p user, TagOk k m p → Traced.Logs
        (Event.Inside m k.info k.walkLo k.walkHi k.hhdmOffset)
        (evidenceCb update (p + k.hhdmOffset) user) m := by
      intro p user hok
      have hlo := hok.sizeLow
      refine .bind (.look (read_inside hwin hok (by omega) (by omega))) ?_
      exact .bind (.look (read_inside hwin hok (Nat.le_refl _)
        (Nat.le_refl _))) (.pure _)
    obtain ⟨hlogs, hcount⟩ := forEachTag_noFault hwin hverify hcb (fun _ _ => rfl)
      (update (update state evidenceDomain) (m.bytes k.info 144))
    rw [evidence, if_neg hk]
    refine ⟨?_, ?_⟩
    · exact .bind (.look (info_inside (d := 0) (by omega))) hlogs
    · rw [Traced.count_bind, loadBytes_inspected, Nat.zero_add]
      exact hcount

/-- Everything a consumer does with a context keeps inside: lookup of any
id, iteration with any callback, and evidence into any hash. -/
structure LaterNoFault (m : Mem) (k : Kctx) (info lo hi off : Nat) : Prop where
  find : ∀ id, NoFault m info lo hi off (findTag (some k) id)
  each : ∀ (σ : Type) (f : Nat → σ → Bool × σ) (user : σ),
    NoFault m info lo hi off (forEachTag (some k) (some fun t s => pure (f t s)) user)
  evidence : ∀ (σ : Type) (update : σ → List UInt8 → σ) (state : σ),
    NoFault m info lo hi off (evidence (some k) (some update) state)

theorem laterNoFault (hwin : k.walkLo < k.walkHi) (hverify : k.verifyTagCrc = true) :
    LaterNoFault m k k.info k.walkLo k.walkHi k.hhdmOffset where
  find := findTag_noFault hwin
  each _ _ user := forEachTag_noFault hwin hverify (fun _ _ _ => .pure _)
    (fun _ _ => rfl) user
  evidence _ update state := evidence_noFault hwin hverify update state

/-- The initialiser of a windowed context keeps inside at its hint. -/
theorem initWin_noFault (out : Option Kctx) (info hint : Nat) {lo hi : Nat} (hwin : lo < hi) :
    NoFault m info lo hi hint (initWin out info hint lo hi) := by
  obtain ⟨hfind, hcount⟩ :=
    findTag_noFault (k := ⟨info, hint, true, lo, hi⟩) (m := m) hwin tagHhdm
  refine ⟨?_, ?_⟩
  · unfold initWin
    refine .ite (fun _ => .pure _) fun hnull => ?_
    have hinfo : info ≠ 0 := fun hc => hnull (Or.inr hc)
    refine .bind (.look (info_inside (d := 0) (by omega))) ?_
    refine .ite (fun _ => .pure _) fun _ => ?_
    refine .bind (.look (info_inside (by omega))) ?_
    refine .ite (fun _ => .pure _) fun _ => ?_
    refine .bind (.look (info_inside (by omega))) ?_
    refine .ite (fun _ => .pure _) fun _ => ?_
    refine .bind (.look (info_inside (by omega))) ?_
    refine .bind ?_ ?_
    · rw [crcSkip, if_neg (by decide)]
      exact .bind (.look (info_inside (d := 0) (by omega)))
        (.bind (.look (info_inside (d := 144) (by omega)))
          (.pure _))
    refine .ite (fun _ => .pure _) fun _ => ?_
    refine .bind hfind ?_
    cases hf : (findTag (some ⟨info, hint, true, lo, hi⟩) tagHhdm).val m with
    | none => exact .pure _
    | some t =>
      obtain ⟨p, hok, rfl, _, _⟩ := findTag_some hinfo hf
      have hlow := hok.sizeLow
      refine .ite (fun _ => ?_) fun _ => .pure _
      refine .bind (.look (read_inside hwin hok (by omega) (by omega))) ?_
      refine .ite (fun hsize => ?_) fun _ => .pure _
      change 40 ≤ tagSize m (p + hint) at hsize
      have hread : p + hint + 32 + 8 ≤ p + hint + tagSize m (p + hint) := by omega
      exact .bind (.look (read_inside hwin hok (Nat.le_add_right _ _) hread))
        (.pure _)
  · have hcrc : Traced.count Event.isInspect (crcSkip info 144 136) m = 0 := by
      simp only [crcSkip, loadCrcSpliced, Traced.count_ite, Traced.count_bind, Traced.count_pure,
        loadBytes_inspected, ite_self]
    unfold initWin
    simp only [Traced.count_ite, Traced.count_bind, Traced.count_pure, loadBytes_inspected, load16,
      load32, load64, load_inspected, hcrc, Nat.zero_add]
    split
    · exact Nat.zero_le _
    split
    · exact Nat.zero_le _
    split
    · exact Nat.zero_le _
    split
    · exact Nat.zero_le _
    split
    · exact Nat.zero_le _
    cases (findTag (some ⟨info, hint, true, lo, hi⟩) tagHhdm).val m with
    | none => exact hcount
    | some t =>
      simp only [Traced.count_ite, Traced.count_bind, Traced.count_pure, load_inspected, ite_self,
        Nat.add_zero]
      exact hcount

theorem initBounded_inside (m : Mem) (out : Option Kctx) (info hint arena bytes : Nat) :
    NoFault m info arena (arena + bytes) hint (initBounded out info hint arena bytes) := by
  unfold initBounded
  split
  · exact ⟨.pure _, Nat.zero_le _⟩
  split
  · exact ⟨.pure _, Nat.zero_le _⟩
  next hzero =>
    split
    · exact ⟨.pure _, Nat.zero_le _⟩
    next hlen =>
      split
      · exact ⟨.pure _, Nat.zero_le _⟩
      next hend =>
        unfold maxPhys at hlen hend
        rw [Nat.mod_eq_of_lt (show arena + bytes < 2 ^ 64 by omega)]
        obtain ⟨hlogs, hcount⟩ := initWin_noFault (m := m) (some ⟨0, 0, false, 0, 0⟩) info hint
          (show arena < arena + bytes by omega)
        refine ⟨.bind hlogs ?_, ?_⟩
        · exact .ite (fun _ => .pure _) fun _ => .pure _
        · simp only [Traced.count_bind, Traced.count_ite, Traced.count_pure, ite_self, Nat.add_zero]
          exact hcount

/-- A refused initialisation leaves the caller's context alone. -/
theorem initBounded_error {out : Option Kctx} {info hint arena bytes : Nat}
    (h : ((initBounded out info hint arena bytes).val m).1 ≠ .ok) :
    ((initBounded out info hint arena bytes).val m).2 = out := by
  unfold initBounded at h ⊢
  simp only [Traced.val_ite, Traced.val_pure, Traced.val_bind] at h ⊢
  split
  · rfl
  split
  · rfl
  split
  · rfl
  split
  · rfl
  split
  next hnull hzero hlen hend hst =>
    rw [if_neg hnull, if_neg hzero, if_neg hlen, if_neg hend, if_pos hst] at h
    exact absurd hst h
  · rfl

end Calls

/-! ## The bounded initialiser -/

/-- With a nonzero hint, the bounded parser reads INFO and the hinted
arena, and nothing else, whatever the memory holds. -/
theorem initBounded_noFault (m : Mem) (out : Option Kctx) (info hint arena bytes : Nat)
    (hhint : hint ≠ 0) :
    NoFault m info arena (arena + bytes) hint (initBounded out info hint arena bytes) ∧
    (((initBounded out info hint arena bytes).val m).1 ≠ .ok →
      ((initBounded out info hint arena bytes).val m).2 = out) ∧
    ∀ k, (initBounded out info hint arena bytes).val m = (.ok, some k) →
      LaterNoFault m k info arena (arena + bytes) hint := by
  refine ⟨initBounded_inside m out info hint arena bytes, initBounded_error, ?_⟩
  intro k hk
  obtain ⟨_, _, _, hbytes, _, _, rfl⟩ := of_initBounded hk
  have hlater := laterNoFault (m := m)
    (k := ⟨info, laterOffset m ⟨info, hint, true, arena, arena + bytes⟩, true, arena,
      arena + bytes⟩) (show arena < arena + bytes by omega) rfl
  rw [laterOffset_of_hint m hhint] at hlater ⊢
  exact hlater

/-- INFO at `info`, with a count, a first tag and a checksum. -/
def putInfo (m : Mem) (info count first crc : Nat) : Mem :=
  put64 (put64 (put32 (put32 (put16 (m.blit info infoMagic) (info + 16) 1) (info + 20) 184)
    (info + 116) count) (info + 120) first) (info + 136) crc

/-- A tag header at the address `t`. -/
def putTag (m : Mem) (t id size next crc : Nat) : Mem :=
  put64 (put64 (put32 (put64 m t id) (t + 8) size) (t + 16) next) (t + 24) crc

/-- A handoff whose only tag links to itself, behind the hint `0x10000`. -/
def cyclicHandoff : Mem :=
  putTag (putInfo Mem.zeros 0x1000 1 0x2000 548213755396875327) 0x12000 7 32 0x2000
    2612304772776097733

theorem infoOk_cyclicHandoff : InfoOk cyclicHandoff 0x1000 :=
  ⟨by decide +kernel, by decide +kernel, by decide +kernel, by decide +kernel, by decide +kernel⟩

/-- The cyclic handoff is accepted, and every later walk over it stops at the bound. -/
theorem initBounded_noFault_cyclic :
    (initBounded (some ⟨0, 0, false, 0, 0⟩) 0x1000 0x10000 0x2000 0x1000).val cyclicHandoff =
      (.ok, some ⟨0x1000, 0x10000, true, 0x2000, 0x3000⟩) ∧
    LaterNoFault cyclicHandoff ⟨0x1000, 0x10000, true, 0x2000, 0x3000⟩ 0x1000 0x2000 0x3000
      0x10000 := by
  have hval : (initBounded (some ⟨0, 0, false, 0, 0⟩) 0x1000 0x10000 0x2000 0x1000).val
      cyclicHandoff = (.ok, some ⟨0x1000, 0x10000, true, 0x2000, 0x3000⟩) := by
    rw [initBounded_val (by decide) (by decide) (by decide) (by decide) (by decide) _ _
      infoOk_cyclicHandoff, laterOffset_of_hint _ (by decide)]
  exact ⟨hval, (initBounded_noFault cyclicHandoff (some ⟨0, 0, false, 0, 0⟩) 0x1000 0x10000 0x2000
    0x1000 (by decide)).2.2 _ hval⟩

/-- A handoff in the identity map whose HHDM tag names the offset
`0x100000`. -/
def hhdmHandoff : Mem :=
  put64 (putTag (putInfo Mem.zeros 0x1000 1 0x2000 548213755396875327) 0x2000 tagHhdm 40 0
    1917091222468860789) 0x2020 0x100000

/-- With hint zero the HHDM tag moves the later walks: the handoff is
accepted over the identity arena `[0x2000, 0x3000)`, and the next lookup
reads four bytes at `0x102008`. -/
theorem hhdmTag_moves_reads :
    ∃ k, (initBounded (some ⟨0, 0, false, 0, 0⟩) 0x1000 0 0x2000 0x1000).val hhdmHandoff =
        (.ok, some k) ∧
      Event.read 0x102008 4 ∈ (findTag (some k) 7).log hhdmHandoff ∧
      ¬ Event.Inside hhdmHandoff 0x1000 0x2000 0x3000 0 (.read 0x102008 4) := by
  refine ⟨⟨0x1000, 0x100000, true, 0x2000, 0x3000⟩, by decide +kernel, by decide +kernel, ?_⟩
  rintro (hinfo | harena)
  · exact absurd hinfo (by decide)
  · exact absurd harena (by decide)

/-- With hint zero the initialiser itself keeps to the identity arena, and
everything later keeps to the arena at the context's offset: zero, unless
the identity walk finds an intact HHDM tag of at least forty bytes, and
then that tag's offset. -/
theorem initBounded_zeroHint (m : Mem) (out : Option Kctx) (info arena bytes : Nat) :
    NoFault m info arena (arena + bytes) 0 (initBounded out info 0 arena bytes) ∧
    ∀ k, (initBounded out info 0 arena bytes).val m = (.ok, some k) →
      k.hhdmOffset = laterOffset m ⟨info, 0, true, arena, arena + bytes⟩ ∧
      LaterNoFault m k info arena (arena + bytes) k.hhdmOffset ∧
      ((∀ t, (findTag (some ⟨info, 0, true, arena, arena + bytes⟩) tagHhdm).val m = some t →
          40 ≤ tagSize m t → get64 m (t + 32) = 0) →
        LaterNoFault m k info arena (arena + bytes) 0) := by
  refine ⟨initBounded_inside m out info 0 arena bytes, ?_⟩
  intro k hk
  obtain ⟨_, _, _, hbytes, _, _, rfl⟩ := of_initBounded hk
  have hlater := laterNoFault (m := m)
    (k := ⟨info, laterOffset m ⟨info, 0, true, arena, arena + bytes⟩, true, arena,
      arena + bytes⟩) (show arena < arena + bytes by omega) rfl
  refine ⟨rfl, hlater, fun hzero => ?_⟩
  rwa [laterOffset_eq_zero rfl hzero] at hlater ⊢

end Kernel

end BearBoot
