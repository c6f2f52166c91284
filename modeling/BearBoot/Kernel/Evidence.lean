import BearBoot.Machine.Pack
import BearBoot.Kernel.Lookup
import BearBoot.Kernel.NoFault

/-!
# The evidence stream is unambiguous

`bbp_evidence` feeds a hash a domain separator, INFO and the delivered tags,
one behind the other and with nothing between them. The hash sees one byte
string, so what is attested is what that string determines.

It determines everything. INFO has a fixed length; and a tag says its own
size at a fixed place in its header, which a delivered tag is long enough to
have. So the tags are records that can be told apart without separators, and
two streams are equal exactly when INFO and the tags are
(`evidence_unambiguous`).
-/

set_option autoImplicit false

namespace BearBoot.Kernel

open Machine

variable {k : Kctx} {m : Mem}

/-- The bytes of the tag at the virtual address `t`. -/
def tagBytes (m : Mem) (t : Nat) : List UInt8 := m.bytes t (tagSize m t)

/-- What `bbp_evidence` feeds a hash, as one string. -/
def evidenceStream (k : Kctx) (m : Mem) : List UInt8 :=
  ((evidence (some k) (some fun fed data => fed ++ data) []).val m).2

/-- The context is one that initialisation has answered. -/
def Initialised (k : Kctx) : Prop :=
  ∃ out info hint lo hi m, (initWin out info hint lo hi).val m = (.ok, some k)

/-- A callback that never stops and appends what it is given. -/
theorem runCb_feed (f : Nat → List UInt8) (ts : List Nat) (n : Nat) (fed : List UInt8) :
    runCb (fun t fed => (false, fed ++ f t)) ts n fed = (n + ts.length, fed ++ (ts.map f).flatten) := by
  induction ts generalizing n fed with
  | nil => simp [runCb]
  | cons t ts ih =>
    simp only [runCb, Bool.false_eq_true, if_false, ih, List.length_cons, List.map_cons,
      List.flatten_cons, List.append_assoc, Prod.mk.injEq, and_true]
    omega

/-- What `bbp_evidence` feeds: the domain, INFO and the delivered tags. -/
theorem evidence_val (hk : k.info ≠ 0) (m : Mem) :
    (evidence (some k) (some fun fed data => fed ++ data) []).val m =
      ((delivered k m).length, evidenceDomain ++ m.bytes k.info 144 ++
        ((delivered k m).map fun t => m.bytes t (tagSize m t)).flatten) := by
  simp only [evidence, if_neg hk, Traced.val_bind, loadBytes_val, forEachTag_val hk, evidenceCb,
    load32_val, Traced.val_pure, List.nil_append]
  exact (runCb_feed (fun t => m.bytes t (tagSize m t)) _ _ _).trans (by rw [Nat.zero_add])

theorem Initialised.info_ne (h : Initialised k) : k.info ≠ 0 := by
  obtain ⟨out, info, hint, lo, hi, m, hinit⟩ := h
  obtain ⟨hout, hne, hok⟩ := infoOk_of_initWin (congrArg Prod.fst hinit)
  rw [initWin_val hout hne m hint lo hi hok, Prod.mk.injEq, Option.some.injEq] at hinit
  rw [← hinit.2]
  exact hne

/-- A delivered tag has at least a header. -/
theorem delivered_size {t : Nat} (h : t ∈ delivered k m) : 32 ≤ tagSize m t := by
  obtain ⟨p, hok, rfl⟩ := mem_walk (List.mem_of_mem_filter h)
  exact hok.sizeLow

/-- A tag's size is in its bytes, whatever follows them. -/
theorem tagSize_of_bytes {t : Nat} (h : 32 ≤ tagSize m t) (rest : List UInt8) :
    (Mem.ofList (tagBytes m t ++ rest)).getLE 8 4 = tagSize m t := by
  refine Mem.getLE_congr fun i hi => ?_
  have hlen : (tagBytes m t).length = tagSize m t := Mem.bytes_length _ _ _
  rw [Mem.ofList, List.getD_append _ _ _ _ (by omega), Nat.add_assoc]
  exact Mem.ofList_bytes (show 8 + i < tagSize m t by omega)

/-- Tags in a row are told apart. -/
theorem tags_inj {k' : Kctx} {m' : Mem}
    (h : ((delivered k m).map (tagBytes m)).flatten = ((delivered k' m').map (tagBytes m')).flatten) :
    (delivered k m).map (tagBytes m) = (delivered k' m').map (tagBytes m') := by
  have hne : ∀ (k : Kctx) (m : Mem), ∀ x ∈ (delivered k m).map (tagBytes m), x ≠ [] := by
    intro k m x hx hnil
    obtain ⟨t, ht, rfl⟩ := List.mem_map.mp hx
    have hlen : (tagBytes m t).length = tagSize m t := Mem.bytes_length _ _ _
    have hsize := delivered_size ht
    rw [hnil] at hlen
    rw [← hlen] at hsize
    exact absurd hsize (by decide)
  refine flatten_inj (hne k m) (hne k' m') ?_ h
  intro x hx y hy r r' heq
  obtain ⟨t, ht, rfl⟩ := List.mem_map.mp hx
  obtain ⟨t', ht', rfl⟩ := List.mem_map.mp hy
  have hsize := tagSize_of_bytes (delivered_size ht) r
  rw [heq, tagSize_of_bytes (delivered_size ht') r'] at hsize
  rw [tagBytes, tagBytes, Mem.bytes_length, Mem.bytes_length, hsize]

/-- Two streams are equal exactly when INFO is the same bytes and the same
tags are delivered: as many, in the same order, with the same bytes. -/
theorem evidence_unambiguous (k k' : Kctx) (hk : Initialised k) (hk' : Initialised k') (m m' : Mem) :
    evidenceStream k m = evidenceStream k' m' ↔
      m.bytes k.info 144 = m'.bytes k'.info 144 ∧
        (iterated (some k) m).map (tagBytes m) = (iterated (some k') m').map (tagBytes m') := by
  have hiter : ∀ {k : Kctx}, k.info ≠ 0 → ∀ m, iterated (some k) m = delivered k m := by
    intro k hne m
    rw [iterated, forEachTag_collect hne]
  have hstream : ∀ {k : Kctx}, k.info ≠ 0 → ∀ m, evidenceStream k m =
      evidenceDomain ++ (m.bytes k.info 144 ++ ((delivered k m).map (tagBytes m)).flatten) := by
    intro k hne m
    rw [evidenceStream, evidence_val hne, List.append_assoc]
    rfl
  rw [hiter hk.info_ne, hiter hk'.info_ne, hstream hk.info_ne, hstream hk'.info_ne]
  constructor
  · intro h
    obtain ⟨hinfo, htags⟩ := List.append_inj (List.append_cancel_left h)
      (by rw [Mem.bytes_length, Mem.bytes_length])
    exact ⟨hinfo, tags_inj htags⟩
  · rintro ⟨hinfo, htags⟩
    rw [hinfo, htags]

/-- One byte of INFO, its minor version, makes another stream. -/
theorem evidence_unambiguous_cyclic :
    evidenceStream ⟨0x1000, 0x10000, true, 0x2000, 0x3000⟩ cyclicHandoff ≠
      evidenceStream ⟨0x1000, 0x10000, true, 0x2000, 0x3000⟩ (put16 cyclicHandoff 0x1012 7) := by
  have hk : Initialised ⟨0x1000, 0x10000, true, 0x2000, 0x3000⟩ := by
    refine ⟨some ⟨0, 0, false, 0, 0⟩, 0x1000, 0x10000, 0x2000, 0x3000, cyclicHandoff, ?_⟩
    rw [initWin_val (by decide) (by decide) _ _ _ _ infoOk_cyclicHandoff,
      laterOffset_of_hint _ (by decide)]
  intro h
  obtain ⟨hinfo, -⟩ := (evidence_unambiguous _ _ hk hk cyclicHandoff _).mp h
  have hbyte := Mem.bytes_eq_iff.mp hinfo 18 (by decide)
  exact absurd hbyte (by decide +kernel)

end BearBoot.Kernel
