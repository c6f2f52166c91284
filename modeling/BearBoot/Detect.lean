import BearBoot.Burst
import BearBoot.Kernel.Lookup
import BearBoot.Kernel.NoFault
import BearBoot.V2.Accept

/-!
# Every gate rejects a burst

Four structures carry a CRC of themselves: INFO, the kernel's header, a
tag and a capsule. A gate that accepts one of them has compared the CRC
with the field, so `Burst.detected` applies: what differs from an accepted
structure only inside a window of eight bytes, beside the field or on it,
is rejected, wherever it stands and whatever the gate is called with.

INFO, header and capsule have their length from outside the bytes that are
checked. A tag has it in `tag_size`, and a window that changes the size
changes how many bytes are checked; such windows are left out, and with
them the size is the same on both sides.
-/

set_option autoImplicit false

namespace BearBoot

open Machine Kernel V2

section Gates

variable {m m' : Mem} {p p' n w : Nat}

theorem initWin_burst {out out' : Option Kctx} {hint lo hi hint' lo' hi' : Nat}
    (hok : ((initWin out p hint lo hi).val m).1 = .ok) (h : Burst m m' p p' 144 w)
    (hw : Beside w 136) : ((initWin out' p' hint' lo' hi').val m').1 ≠ .ok := by
  intro hok'
  have hcrc := (infoOk_of_initWin hok).2.2.crc.symm
  have hcrc' := (infoOk_of_initWin hok').2.2.crc.symm
  exact h.detected (by decide) hw hcrc hcrc'

theorem verifyHeader_burst (hok : (verifyHeader p).val m = .ok) (h : Burst m m' p p' 160 w)
    (hw : Beside w 152) : (verifyHeader p').val m' ≠ .ok := by
  intro hok'
  have hcrc := (verifyHeader_ok_iff.mp hok).2.crc
  have hcrc' := (verifyHeader_ok_iff.mp hok').2.crc
  exact h.detected (by decide) hw hcrc hcrc'

theorem spliced_of_wellFormed {c : Nat} (h : WellFormed (m.based c) n) :
    crcSpliced m c n 40 = get64 m (c + 40) := by
  have hcrc := h.crc
  rwa [crcSpliced_based, Nat.add_zero, ← get64_based] at hcrc

theorem parse_burst {out out' : Option View} (hok : ((parse p n out).val m).1 = .ok ())
    (h : Burst m m' p p' n w) (hw : Beside w 40) : ((parse p' n out').val m').1 ≠ .ok () := by
  intro hok'
  have hwf := (parse_wellFormed hok).2
  have hlow := hwf.low
  exact h.detected (by omega) hw (spliced_of_wellFormed hwf)
    (spliced_of_wellFormed (parse_wellFormed hok').2)

theorem crcOk_burst (hsize : 32 ≤ tagSize m p) (hok : CrcOk m p)
    (h : Burst m m' p p' (tagSize m p) w) (hw : Beside w 24) (havoid : w + 8 ≤ 8 ∨ 12 ≤ w) :
    tagSize m' p' = tagSize m p ∧ ¬ CrcOk m' p' := by
  have hsame : tagSize m' p' = tagSize m p := by
    apply Mem.getLE_congr
    intro i hi
    rw [Nat.add_assoc, Nat.add_assoc]
    exact (h.outside (8 + i) (by omega) (by omega)).symm
  refine ⟨hsame, ?_⟩
  intro hok'
  rw [CrcOk, hsame] at hok'
  exact h.detected (by omega) hw hok hok'

/-- With verification on, a tag whose CRC fails is not delivered. -/
theorem not_delivered {k : Kctx} (hverify : k.verifyTagCrc = true) {t : Nat} (hbad : ¬ CrcOk m t) :
    t ∉ iterated (some k) m := by
  intro ht
  rw [iterated_eq] at ht
  dsimp only at ht
  split at ht
  next => cases ht
  next =>
    have hpass := of_decide_eq_true (List.mem_filter.mp ht).2
    exact hbad (hpass hverify)

end Gates

/-- A structure that differs from an accepted one, and only inside a window
of eight bytes that is beside its checksum field or on it, is rejected at
every gate; and a tag that differs so from one with a valid CRC, with
another `tag_size` excluded, fails its own and is neither found nor handed
to a callback. -/
theorem bursts_rejected :
    (∀ (m m' : Mem) (p p' w hint lo hi hint' lo' hi' : Nat) (out out' : Option Kctx),
      ((initWin out p hint lo hi).val m).1 = .ok → Burst m m' p p' 144 w → Beside w 136 →
        ((initWin out' p' hint' lo' hi').val m').1 ≠ .ok) ∧
    (∀ (m m' : Mem) (p p' w : Nat),
      (verifyHeader p).val m = .ok → Burst m m' p p' 160 w → Beside w 152 →
        (verifyHeader p').val m' ≠ .ok) ∧
    (∀ (m m' : Mem) (p p' n w : Nat) (out out' : Option View),
      ((parse p n out).val m).1 = .ok () → Burst m m' p p' n w → Beside w 40 →
        ((parse p' n out').val m').1 ≠ .ok ()) ∧
    ∀ (m m' : Mem) (t t' w : Nat),
      32 ≤ tagSize m t → (tagCrcOk t).val m = true → Burst m m' t t' (tagSize m t) w →
        Beside w 24 → (w + 8 ≤ 8 ∨ 12 ≤ w) →
          (tagCrcOk t').val m' = false ∧
          ∀ k : Kctx, k.verifyTagCrc = true →
            (∀ id, (findTag (some k) id).val m' ≠ some t') ∧
            ∀ (σ : Type) (cb : TagCb σ) (user : σ),
              t' ∉ ((forEachTag (some k) (some (observed cb)) (user, [])).val m').2.2 := by
  refine ⟨?_, ?_, ?_, ?_⟩
  · intro m m' p p' w hint lo hi hint' lo' hi' out out' hok h hw
    exact initWin_burst hok h hw
  · intro m m' p p' w hok h hw
    exact verifyHeader_burst hok h hw
  · intro m m' p p' n w out out' hok h hw
    exact parse_burst hok h hw
  · intro m m' t t' w hsize hok h hw havoid
    rw [tagCrcOk_val hsize] at hok
    obtain ⟨hsame, hbad⟩ := crcOk_burst hsize (of_decide_eq_true hok) h hw havoid
    refine ⟨?_, ?_⟩
    · rw [tagCrcOk_val (by omega)]
      exact decide_eq_false hbad
    · intro k hverify
      have hnot := not_delivered hverify hbad
      refine ⟨?_, ?_⟩
      · intro id hfind
        rw [findTag_iterated] at hfind
        exact hnot (List.mem_of_find?_eq_some hfind)
      · intro σ cb user hmem
        rw [(forEachTag_seen (some k) m' cb user).2] at hmem
        exact hnot (List.mem_of_mem_take hmem)

/-- The cyclic handoff is not accepted with a byte of `next_context` set. -/
theorem bursts_rejected_cyclic :
    ((initWin (some ⟨0, 0, false, 0, 0⟩) 0x1000 0 0 0).val (cyclicHandoff.putLE 0x1087 1 1)).1 ≠
      .ok := by
  have hok : ((initWin (some ⟨0, 0, false, 0, 0⟩) 0x1000 0 0 0).val cyclicHandoff).1 = .ok :=
    initWin_ok_iff.mpr ⟨by decide, by decide, infoOk_cyclicHandoff⟩
  have hburst : Burst cyclicHandoff (cyclicHandoff.putLE 0x1087 1 1) 0x1000 0x1000 144 128 := by
    refine ⟨?_, 0x87, by decide, by decide +kernel⟩
    intro i hi hout
    rw [Mem.putLE_frame (by omega)]
  exact bursts_rejected.1 _ _ _ _ _ _ _ _ 0 0 0 _ _ hok hburst (Or.inl (by decide))

end BearBoot
