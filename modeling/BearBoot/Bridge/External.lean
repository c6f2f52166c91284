import BearBoot.Bridge.RoundTrip

/-!
# What the bridges say about references

A v1 tag may name memory outside itself: a command line, the ACPI tables, an
initrd. A capsule is meant to travel without that memory, so the bridges take
such a tag only under `BBP_V2_BRIDGE_ALLOW_EXTERNAL_PHYS`, and mark it.

`tag_external_references` decides which tags these are, with offsets written
as numbers. Here the packed structures of `bbp.h` are written down once more,
field by field (`Layout`), and the reference fields of each kind of tag are
named in them (`Kind.references`), array elements included. That the numbers
of the C code are the offsets of these fields, and that the element counts a
tag declares keep all of them inside the tag, is `tagExternalReferences_spec`.

`bridges_never_smuggle` is the result for both directions. A capsule out of
the forward bridge marks exactly the entries that refer to something; without
the opt-in neither bridge lets a reference through, whatever the flags of a
capsule claim.
-/

set_option autoImplicit false

namespace BearBoot.Bridge

open Machine V2

/-! ## The structures of `bbp.h` -/

/-- The fields of the structures below. -/
inductive Field where
  | header | flags | reserved | reserved0 | reserved1 | reserved2
  | string | length | stringCrc
  | rsdpAddress | xsdtAddress | oemId | acpiVersion
  | entry32bit | entry64bit
  | systemTable | memoryMap | memoryMapSize | descriptorSize | descriptorVersion
  | dtbAddress | dtbSize | overlayCount | overlays | dtbCrc | overlaysCrc
  | tpmBaseAddress | tpmVersion | tpmInterface | tpmFlags | secureBoot | measurementCount | measurements
  | publicKeyCount | publicKeys | entropySize | entropyData | measurementsCrc | publicKeysCrc | entropyCrc
  | address | displayCount | pitch | totalSize | cursorBuffer | cursorWidth | cursorHeight
  | width | height | refreshRate | colorDepth | pixelFormat | physicalWidthMm | physicalHeightMm | dpiX | dpiY
  | hdrCapabilities | colorSpace | maxLuminance | minLuminance | edidSize | edidData | edidCrc
  | cpuCount | bspId | processorId | apicId | state | packageId | coreId | threadId | numaNode | capabilities
  | clockFrequency | wakeupVector | extraArgument
  | moduleCount | baseAddress | size | name | type | metadataSize | metadata | hashAlgorithm | hash
  | ecamBase | deviceCount
  deriving DecidableEq

/-- A packed structure: its fields in order, with their widths in bytes. -/
abbrev Layout := List (Field × Nat)

namespace Layout

/-- `sizeof`. -/
def size (l : Layout) : Nat := (l.map Prod.snd).sum

/-- `offsetof`. -/
def offset (l : Layout) (f : Field) : Nat := ((l.takeWhile (·.1 ≠ f)).map Prod.snd).sum

/-- The addresses of some fields of the structure at `p`. -/
def fieldsAt (l : Layout) (p : Nat) (fs : List Field) : List Nat := fs.map fun f => p + l.offset f

/-- The addresses of some fields of each of the `count` structures `e` behind
the structure at `p`. -/
def elementsAt (l e : Layout) (p count : Nat) (fs : List Field) : List Nat :=
  (List.range count).flatMap fun i => e.fieldsAt (p + l.size + i * e.size) fs

end Layout

def cmdlineLayout : Layout := [(.header, 32), (.string, 8), (.length, 4), (.flags, 4), (.stringCrc, 8)]

def acpiLayout : Layout :=
  [(.header, 32), (.rsdpAddress, 8), (.xsdtAddress, 8), (.oemId, 4), (.acpiVersion, 2), (.flags, 2)]

def smbiosLayout : Layout := [(.header, 32), (.entry32bit, 8), (.entry64bit, 8)]

def efiLayout : Layout :=
  [(.header, 32), (.systemTable, 8), (.memoryMap, 8), (.memoryMapSize, 4), (.descriptorSize, 4),
    (.descriptorVersion, 4), (.reserved, 4)]

def devicetreeLayout : Layout :=
  [(.header, 32), (.dtbAddress, 8), (.dtbSize, 4), (.flags, 4), (.overlayCount, 4), (.reserved, 4), (.overlays, 8),
    (.dtbCrc, 8), (.overlaysCrc, 8)]

def securityLayout : Layout :=
  [(.header, 32), (.tpmBaseAddress, 8), (.tpmVersion, 2), (.tpmInterface, 2), (.tpmFlags, 4), (.secureBoot, 8),
    (.measurementCount, 4), (.reserved0, 4), (.measurements, 8), (.publicKeyCount, 4), (.reserved1, 4),
    (.publicKeys, 8), (.entropySize, 4), (.reserved2, 4), (.entropyData, 8), (.measurementsCrc, 8),
    (.publicKeysCrc, 8), (.entropyCrc, 8)]

def framebufferLayout : Layout :=
  [(.header, 32), (.address, 8), (.displayCount, 2), (.flags, 2), (.pitch, 4), (.totalSize, 8), (.cursorBuffer, 8),
    (.cursorWidth, 4), (.cursorHeight, 4)]

def displayInfoLayout : Layout :=
  [(.width, 2), (.height, 2), (.refreshRate, 2), (.colorDepth, 2), (.pixelFormat, 4), (.physicalWidthMm, 2),
    (.physicalHeightMm, 2), (.dpiX, 2), (.dpiY, 2), (.hdrCapabilities, 2), (.colorSpace, 2), (.maxLuminance, 1),
    (.minLuminance, 1), (.reserved, 2), (.edidSize, 4), (.edidData, 8), (.edidCrc, 8)]

def smpLayout : Layout := [(.header, 32), (.cpuCount, 4), (.bspId, 4), (.flags, 8)]

def cpuInfoLayout : Layout :=
  [(.processorId, 4), (.apicId, 4), (.state, 2), (.flags, 2), (.packageId, 2), (.coreId, 2), (.threadId, 2),
    (.numaNode, 2), (.capabilities, 4), (.clockFrequency, 8), (.wakeupVector, 8), (.extraArgument, 8)]

def modulesLayout : Layout := [(.header, 32), (.moduleCount, 4), (.reserved, 4)]

def moduleEntryLayout : Layout :=
  [(.baseAddress, 8), (.size, 8), (.name, 64), (.type, 4), (.flags, 4), (.metadataSize, 4), (.reserved0, 4),
    (.metadata, 8), (.hashAlgorithm, 4), (.reserved1, 4), (.hash, 64)]

def pcieLayout : Layout := [(.header, 32), (.ecamBase, 8), (.deviceCount, 4), (.flags, 4)]

/-- The sizes `bbp.h` asserts. -/
example : [cmdlineLayout, acpiLayout, smbiosLayout, efiLayout, devicetreeLayout, securityLayout, framebufferLayout,
    displayInfoLayout, smpLayout, cpuInfoLayout, modulesLayout, moduleEntryLayout, pcieLayout].map Layout.size =
    [56, 56, 48, 64, 80, 128, 72, 48, 48, 48, 40, 176, 48] := by decide

/-! ## The kinds of tags -/

/-- The tag types known to the bridge. -/
inductive Kind where
  | hhdm | kernelAddress | memoryMap | cmdline | acpi | smbios | efi | devicetree | security | framebuffer | smp
  | modules | pcie | metrics | hypervisor
  deriving DecidableEq, Repr

namespace Kind

def id : Kind → Nat
  | hhdm => tagHhdm
  | kernelAddress => tagKernelAddress
  | memoryMap => tagMemoryMap
  | cmdline => tagCmdline
  | acpi => tagAcpi
  | smbios => tagSmbios
  | efi => tagEfi
  | devicetree => tagDevicetree
  | security => tagSecurity
  | framebuffer => tagFramebuffer
  | smp => tagSmp
  | modules => tagModules
  | pcie => tagPcie
  | metrics => tagMetrics
  | hypervisor => tagHypervisor

/-- The addresses of the reference fields of the tag at `tag`. -/
def references (m : Mem) (tag : Nat) : Kind → List Nat
  | cmdline => cmdlineLayout.fieldsAt tag [.string]
  | acpi => acpiLayout.fieldsAt tag [.rsdpAddress, .xsdtAddress]
  | smbios => smbiosLayout.fieldsAt tag [.entry32bit, .entry64bit]
  | efi => efiLayout.fieldsAt tag [.systemTable, .memoryMap]
  | devicetree => devicetreeLayout.fieldsAt tag [.dtbAddress, .overlays]
  | security => securityLayout.fieldsAt tag [.tpmBaseAddress, .measurements, .publicKeys, .entropyData]
  | framebuffer => framebufferLayout.fieldsAt tag [.address, .cursorBuffer] ++
      framebufferLayout.elementsAt displayInfoLayout tag (get16 m (tag + framebufferLayout.offset .displayCount))
        [.edidData]
  | smp => smpLayout.elementsAt cpuInfoLayout tag (get32 m (tag + smpLayout.offset .cpuCount)) [.wakeupVector]
  | modules => modulesLayout.elementsAt moduleEntryLayout tag (get32 m (tag + modulesLayout.offset .moduleCount))
      [.baseAddress, .metadata]
  | pcie => pcieLayout.fieldsAt tag [.ecamBase]
  | hhdm | kernelAddress | memoryMap | metrics | hypervisor => []

/-- The devices a PCIe tag declares. -/
def devices (m : Mem) (tag : Nat) : Kind → Nat
  | pcie => get32 m (tag + pcieLayout.offset .deviceCount)
  | _ => 0

end Kind

/-- The tag at `tag` refers to memory outside itself, or may: a reference is not
zero, a PCIe device is declared, or the type is not known. -/
def Refers (m : Mem) (tag : Nat) : Prop :=
  (∃ k : Kind, tagId m tag = k.id ∧ ((∃ a ∈ k.references m tag, get64 m a ≠ 0) ∨ k.devices m tag ≠ 0)) ∨
    ∀ k : Kind, tagId m tag ≠ k.id

/-- The tag at `tag` is of a known type, and its reference fields lie in its
`size` bytes and are zero, with no PCIe devices behind them. -/
def SelfContained (m : Mem) (tag size : Nat) : Prop :=
  ∃ k : Kind, tagId m tag = k.id ∧ (∀ a ∈ k.references m tag, a + 8 ≤ tag + size ∧ get64 m a = 0) ∧
    k.devices m tag = 0

/-! ## The classification -/

section Classify

variable {m : Mem} {tag size : Nat} {b : Bool}

/-- What the answer for a known kind says. -/
structure Kind.Answers (k : Kind) (m : Mem) (tag size : Nat) (b : Bool) : Prop where
  inside : ∀ a ∈ k.references m tag, a + 8 ≤ tag + size
  refers : b = true ↔ (∃ a ∈ k.references m tag, get64 m a ≠ 0) ∨ k.devices m tag ≠ 0

theorem anyRef_iff {p : Nat} {l : Layout} {fs : List Field} :
    anyRef m p (fs.map l.offset) = true ↔ ∃ a ∈ l.fieldsAt p fs, get64 m a ≠ 0 := by
  simp [anyRef, Layout.fieldsAt]

/-- A tag of a fixed form, read through its layout. -/
theorem fixedRefs_spec (l : Layout) (fs : List Field) (hfs : ∀ f ∈ fs, l.offset f + 8 ≤ l.size)
    (h : fixedRefs m tag size l.size (fs.map l.offset) = some b) :
    (∀ a ∈ l.fieldsAt tag fs, a + 8 ≤ tag + size) ∧ (b = true ↔ ∃ a ∈ l.fieldsAt tag fs, get64 m a ≠ 0) := by
  unfold fixedRefs at h
  split at h
  · cases h
  next hsize =>
    cases h
    refine ⟨fun a ha => ?_, anyRef_iff⟩
    obtain ⟨f, hf, rfl⟩ := List.mem_map.mp ha
    have := hfs f hf
    omega

/-- A tag with an array behind it, read through its layouts. -/
theorem arrayRefs_spec (l e : Layout) (fs gs : List Field) {count : Nat} (hfs : ∀ f ∈ fs, l.offset f + 8 ≤ l.size)
    (hgs : ∀ g ∈ gs, e.offset g + 8 ≤ e.size) (he : 0 < e.size)
    (h : arrayRefs m tag size l.size count e.size (fs.map l.offset) (gs.map e.offset) = some b) :
    (∀ a ∈ l.fieldsAt tag fs ++ l.elementsAt e tag count gs, a + 8 ≤ tag + size) ∧
      (b = true ↔ ∃ a ∈ l.fieldsAt tag fs ++ l.elementsAt e tag count gs, get64 m a ≠ 0) := by
  unfold arrayRefs at h
  split at h
  · cases h
  next hsize =>
    split at h
    · cases h
    next hfits =>
      have hcount := (not_not.mp hfits).2
      rw [Nat.le_div_iff_mul_le he] at hcount
      cases h
      refine ⟨fun a ha => ?_, ?_⟩
      · rcases List.mem_append.mp ha with ha | ha
        · obtain ⟨f, hf, rfl⟩ := List.mem_map.mp ha
          have := hfs f hf
          omega
        · obtain ⟨i, hi, ha⟩ := List.mem_flatMap.mp ha
          obtain ⟨g, hg, rfl⟩ := List.mem_map.mp ha
          have hlast := Nat.mul_le_mul_right e.size (List.mem_range.mp hi)
          rw [Nat.succ_mul] at hlast
          have := hgs g hg
          omega
      · rw [Bool.or_eq_true, anyRef_iff, List.any_eq_true]
        simp only [anyRef_iff, Layout.elementsAt, List.mem_append, List.mem_flatMap, or_and_right, exists_or]
        refine or_congr_right ⟨?_, ?_⟩
        · rintro ⟨i, hi, a, ha, hne⟩
          exact ⟨a, ⟨i, hi, ha⟩, hne⟩
        · rintro ⟨a, ⟨i, hi, ha⟩, hne⟩
          exact ⟨i, hi, a, ha, hne⟩

/-- A tag whose references are all there is to see. -/
theorem Kind.Answers.of_references {k : Kind} (hdevices : k.devices m tag = 0)
    (h : (∀ a ∈ k.references m tag, a + 8 ≤ tag + size) ∧ (b = true ↔ ∃ a ∈ k.references m tag, get64 m a ≠ 0)) :
    k.Answers m tag size b := by
  refine ⟨h.1, h.2.trans ?_⟩
  rw [hdevices]
  simp

/-- A tag without references. -/
theorem Kind.Answers.of_none {k : Kind} (hrefs : k.references m tag = []) (hdevices : k.devices m tag = 0)
    (hb : b = false) : k.Answers m tag size b :=
  .of_references hdevices (by simp [hrefs, hb])

theorem fixedRefs_none {base : Nat} (h : fixedRefs m tag size base [] = some b) : b = false := by
  unfold fixedRefs at h
  split at h
  · cases h
  · cases h
    rfl

theorem arrayRefs_none {base count stride : Nat} (h : arrayRefs m tag size base count stride [] [] = some b) :
    b = false := by
  unfold arrayRefs at h
  split at h
  · cases h
  · split at h
    · cases h
    · cases h
      simp [anyRef]

/-- The numbers of `tag_external_references` are the offsets of `bbp.h`, and
the arrays it admits lie in the tag. -/
theorem Kind.answers (k : Kind) (hid : tagId m tag = k.id) (h : tagExternalReferences m tag size = some b) :
    k.Answers m tag size b := by
  have hid : get64 m tag = k.id := hid
  cases k <;> simp +decide only [tagExternalReferences, hid, reduceIte] at h
  case hhdm | kernelAddress | hypervisor => exact .of_none rfl rfl (fixedRefs_none h)
  case memoryMap =>
    split at h
    · cases h
    · split at h
      · cases h
      · cases h
        exact .of_none rfl rfl rfl
  case metrics => exact .of_none rfl rfl (arrayRefs_none h)
  case cmdline => exact .of_references rfl (fixedRefs_spec cmdlineLayout [.string] (by decide) h)
  case acpi => exact .of_references rfl (fixedRefs_spec acpiLayout [.rsdpAddress, .xsdtAddress] (by decide) h)
  case smbios => exact .of_references rfl (fixedRefs_spec smbiosLayout [.entry32bit, .entry64bit] (by decide) h)
  case efi => exact .of_references rfl (fixedRefs_spec efiLayout [.systemTable, .memoryMap] (by decide) h)
  case devicetree =>
    exact .of_references rfl (fixedRefs_spec devicetreeLayout [.dtbAddress, .overlays] (by decide) h)
  case security =>
    exact .of_references rfl
      (fixedRefs_spec securityLayout [.tpmBaseAddress, .measurements, .publicKeys, .entropyData] (by decide) h)
  case framebuffer =>
    exact .of_references rfl (arrayRefs_spec framebufferLayout displayInfoLayout [.address, .cursorBuffer] [.edidData]
      (by decide) (by decide) (by decide) h)
  case smp =>
    exact .of_references rfl (arrayRefs_spec smpLayout cpuInfoLayout [] [.wakeupVector] (by decide) (by decide)
      (by decide) h)
  case modules =>
    exact .of_references rfl (arrayRefs_spec modulesLayout moduleEntryLayout [] [.baseAddress, .metadata] (by decide)
      (by decide) (by decide) h)
  case pcie =>
    split at h
    · cases h
    next hsize =>
      split at h
      · cases h
      · cases h
        have hrefs : Kind.pcie.references m tag = [tag + 32] := rfl
        have hdevices : Kind.pcie.devices m tag = get32 m (tag + 40) := rfl
        refine ⟨fun a ha => ?_, ?_⟩
        · rw [hrefs, List.mem_singleton] at ha
          omega
        · rw [hrefs, hdevices]
          simp

/-- An opaque body counts as a reference. -/
theorem tagExternalReferences_unknown (h : ∀ k : Kind, tagId m tag ≠ k.id) :
    tagExternalReferences m tag size = some true :=
  (if_neg (h .hhdm)).trans <| (if_neg (h .kernelAddress)).trans <| (if_neg (h .memoryMap)).trans <|
    (if_neg (h .cmdline)).trans <| (if_neg (h .acpi)).trans <| (if_neg (h .smbios)).trans <|
    (if_neg (h .efi)).trans <| (if_neg (h .devicetree)).trans <| (if_neg (h .security)).trans <|
    (if_neg (h .framebuffer)).trans <| (if_neg (h .smp)).trans <| (if_neg (h .modules)).trans <|
    (if_neg (h .pcie)).trans <| (if_neg (h .metrics)).trans <| if_neg (h .hypervisor)

/-- What `tag_external_references` answers: whether the tag refers to something,
and, where it does not, that it is self-contained. -/
theorem tagExternalReferences_spec (h : tagExternalReferences m tag size = some b) :
    (b = true ↔ Refers m tag) ∧ (b = false → SelfContained m tag size) := by
  by_cases hknown : ∃ k : Kind, tagId m tag = k.id
  · obtain ⟨k, hid⟩ := hknown
    have hk := k.answers hid h
    refine ⟨⟨fun hb => Or.inl ⟨k, hid, hk.refers.mp hb⟩, ?_⟩, fun hb => ⟨k, hid, fun a ha => ?_, ?_⟩⟩
    · rintro (⟨k', hid', hrefers⟩ | hunknown)
      · exact (k'.answers hid' h).refers.mpr hrefers
      · exact absurd hid (hunknown k)
    · refine ⟨hk.inside a ha, ?_⟩
      by_contra hne
      rw [hk.refers.mpr (Or.inl ⟨a, ha, hne⟩)] at hb
      cases hb
    · by_contra hne
      rw [hk.refers.mpr (Or.inr hne)] at hb
      cases hb
  · have hunknown : ∀ k : Kind, tagId m tag ≠ k.id := fun k hid => hknown ⟨k, hid⟩
    rw [tagExternalReferences_unknown hunknown] at h
    cases h
    exact ⟨iff_of_true rfl (Or.inr hunknown), fun hb => by cases hb⟩

end Classify

/-! ## Out: the capsule -/

/-- The entry carries the external flag. -/
def Marked (ev : EntryView) : Prop := ev.flags &&& efExternalPhys ≠ 0

instance (ev : EntryView) : Decidable (Marked ev) := inferInstanceAs (Decidable (_ ≠ _))

/-- The classification of a tag in a buffer. -/
theorem tagExternalReferences_based (m : Mem) (p tag size : Nat) :
    tagExternalReferences m (p + tag) size = tagExternalReferences (m.based p) tag size :=
  tagExternalReferences_congr (get64_based m p tag) fun i _ _ => by rw [Mem.based_apply, Nat.add_assoc]

section Capsule

variable {m m' : Mem} {output n info policy : Nat} {tags : List V1Tag}

/-- The INFO entry is marked for its context pointer. -/
theorem infoEntry_marked (h : Laid (m'.based output) n (capsuleItems m info tags)) :
    (entryViewOf output (dirent (m'.based output) 0)).type = entryV1Info ∧
      (Marked (entryViewOf output (dirent (m'.based output) 0)) ↔
        get64 m' (output + (dirent (m'.based output) 0).offset + 96) ≠ 0) := by
  have hcontext := capsule_context h
  obtain ⟨offset, _, hdirent, _⟩ := capsule_info h
  have hflags : (dirent (m'.based output) 0).flags = if get64 m (info + 128) ≠ 0 then efExternalPhys else 0 := by
    rw [hdirent]
    rfl
  refine ⟨by rw [hdirent]; rfl, ?_⟩
  rw [Nat.add_assoc, get64_based, hcontext]
  change (dirent (m'.based output) 0).flags &&& efExternalPhys ≠ 0 ↔ _
  rw [hflags]
  by_cases hzero : get64 m (info + 128) ≠ 0
  · rw [if_pos hzero]
    exact iff_of_true (by decide) hzero
  · rw [if_neg hzero]
    exact iff_of_false (by decide) hzero

/-- A tag's entry is marked for its references, and one that is not marked is
self-contained. -/
theorem tagEntry_marked (h : Laid (m'.based output) n (capsuleItems m info tags)) {j : Nat} {v : V1Tag}
    (hv : tags[j]? = some v) (hsound : v.Sound m policy) :
    (Marked (entryViewOf output (dirent (m'.based output) (j + 1))) ↔
        Refers m' (output + (dirent (m'.based output) (j + 1)).offset)) ∧
      (¬ Marked (entryViewOf output (dirent (m'.based output) (j + 1))) →
        SelfContained m' (output + (dirent (m'.based output) (j + 1)).offset)
          (dirent (m'.based output) (j + 1)).size) := by
  have hsame := capsule_same h hv
  obtain ⟨offset, _, hdirent, _⟩ := capsule_tag h hv
  have hflags : (dirent (m'.based output) (j + 1)).flags = if v.external m then 3 else 2 := by
    rw [hdirent]
    rfl
  have hmarked : Marked (entryViewOf output (dirent (m'.based output) (j + 1))) ↔ v.external m = true := by
    change (dirent (m'.based output) (j + 1)).flags &&& efExternalPhys ≠ 0 ↔ _
    rw [hflags]
    by_cases hexternal : v.external m = true
    · rw [if_pos hexternal]
      exact iff_of_true (by decide) hexternal
    · rw [if_neg hexternal]
      exact iff_of_false (by decide) hexternal
  -- the payload in the capsule is classified as the tag was
  have hrefs : tagExternalReferences m' (output + (dirent (m'.based output) (j + 1)).offset)
      (dirent (m'.based output) (j + 1)).size = tagExternalReferences m v.ptr v.size :=
    (tagExternalReferences_based m' output _ _).trans (hsame.references hsound.low)
  obtain ⟨b, hb⟩ := Option.ne_none_iff_exists'.mp hsound.known
  obtain ⟨hrefers, hcontained⟩ := tagExternalReferences_spec (hrefs.trans hb)
  have hexternal : v.external m = true ↔ b = true := by
    rw [V1Tag.external, hb]
    simp
  refine ⟨hmarked.trans (hexternal.trans hrefers), fun hno => hcontained ?_⟩
  rwa [hmarked, hexternal, Bool.not_eq_true] at hno

end Capsule

section Out

variable {m : Mem} {source : Source} {policy workspace output capacity w₀ : Nat} {report : Option Report}
  {r : Forward}

/-- What a success has encoded, with nothing asked of where the tags stand:
they are read after the normalized INFO is stored, and so is the capsule. -/
theorem fromV1_encoding (hr : fromV1 m (some source) policy (some workspace) output capacity (some w₀) report = r)
    (hok : r.status = .ok ()) (hinfo : source.info + 144 ≤ workspace ∨ workspace + 104 ≤ source.info) :
    ∃ m₁ n tags, r.written = some n ∧ output ≠ 0 ∧ tags.length = infoTagCount m source.info ∧
      IsEncoding (r.mem.based output) n (capsuleItems m₁ source.info tags) ∧
      Encodable (capsuleItems m₁ source.info tags) ∧ (∀ v ∈ tags, v.Sound m₁ policy) ∧
      (get64 m₁ (source.info + 128) ≠ 0 → policy &&& allowExternalPhys ≠ 0) := by
  obtain ⟨m₁, n, m₂, hm₁, hconv, hbuild, hwritten, _, _, hmem⟩ := fromV1_inv hr hok
  obtain ⟨hencoding, hencodable⟩ := normalizeBuilt_isEncoding hconv hm₁ hinfo hbuild
  have hsame : SameInfo m source.info m₁ source.info := fun i hi _ _ => by
    rw [hm₁]
    exact normalizeInfo_frame (by omega)
  have hitems : infoItem m source.info :: (source.tags m m₁).map (V1Tag.item m₁) =
      capsuleItems m₁ source.info (source.tags m m₁) := by
    rw [capsuleItems, infoItem_congr hsame]
  rw [hitems] at hencoding hencodable
  refine ⟨m₁, n, source.tags m m₁, hwritten, (build_ok_iff.mp hbuild).1, ?_, hmem ▸ hencoding, hencodable, ?_,
    hconv.context⟩
  · rw [Source.tags, chain, List.length_map, List.length_range]
  · intro v hv
    obtain ⟨i, hi, rfl⟩ := List.mem_map.mp hv
    exact (hconv.chain.good i (List.mem_range.mp hi)).toSound

/-- What the mark of an entry says: entry 0 is INFO, with the context pointer 96
bytes into its payload, and the others are tags. -/
structure EntryTells (m : Mem) (j : Nat) (ev : EntryView) : Prop where
  info : j = 0 → ev.type = entryV1Info ∧ (Marked ev ↔ get64 m (ev.data + 96) ≠ 0)
  tag : j ≠ 0 → (Marked ev ↔ Refers m ev.data)

/-- An entry that refers to nothing. -/
structure EntryClean (m : Mem) (j : Nat) (ev : EntryView) : Prop where
  unmarked : ¬ Marked ev
  context : j = 0 → get64 m (ev.data + 96) = 0
  contained : j ≠ 0 → SelfContained m ev.data ev.size

/-- The entries of a capsule out of the forward bridge. -/
theorem fromV1_tells (hr : fromV1 m (some source) policy (some workspace) output capacity (some w₀) report = r)
    (hok : r.status = .ok ()) (hinfo : source.info + 144 ≤ workspace ∨ workspace + 104 ≤ source.info) :
    ∃ n view, r.written = some n ∧ (∀ out, (parse output n (some out)).val r.mem = (.ok (), some view)) ∧
      view.entryCount = infoTagCount m source.info + 1 ∧
      ∀ j < view.entryCount, ∀ ev₀, ∃ ev,
        (getEntry (some view) j (some ev₀)).val r.mem = (.ok (), some ev) ∧ EntryTells r.mem j ev ∧
          (policy &&& allowExternalPhys = 0 → EntryClean r.mem j ev) := by
  obtain ⟨m₁, n, tags, hwritten, hne, hcount, hencoding, hencodable, hsound, hcontext⟩ := fromV1_encoding hr hok hinfo
  have hwf := hencoding.wellFormed hencodable
  have hlaid := hencoding.toLaid
  have hentries := capsule_entryCount hlaid
  have hallowed := (capsule_restorable hlaid hencodable hsound hcontext).allowed
  refine ⟨n, viewOf (r.mem.based output) output n, hwritten, fun out => parse_val_ok hne hwf,
    hentries.trans (by rw [hcount]), fun j hj ev₀ => ⟨_, getEntry_val_ok hne hwf hj, ?_⟩⟩
  have hunmarked : policy &&& allowExternalPhys = 0 → ¬ Marked (entryViewOf output (dirent (r.mem.based output) j)) :=
    fun hno hmarked => hallowed ⟨j, hj, hmarked⟩ hno
  cases j with
  | zero =>
    have hinfo := infoEntry_marked hlaid
    refine ⟨⟨fun _ => hinfo, fun h => absurd rfl h⟩, fun hno => ⟨hunmarked hno, fun _ => ?_, fun h => absurd rfl h⟩⟩
    exact not_not.mp fun hne => hunmarked hno (hinfo.2.mpr hne)
  | succ j =>
    have hj : j + 1 < entryCount (r.mem.based output) := hj
    have hv : tags[j]? = some _ := List.getElem?_eq_getElem (by omega)
    obtain ⟨htag, hcontained⟩ := tagEntry_marked hlaid hv (hsound _ (List.mem_of_getElem? hv))
    exact ⟨⟨fun h => absurd h (Nat.succ_ne_zero j), fun _ => htag⟩, fun hno => ⟨hunmarked hno,
      fun h => absurd h (Nat.succ_ne_zero j), fun _ => hcontained (hunmarked hno)⟩⟩

end Out

/-! ## Back: the handoff -/

section Back

variable {c m : Mem} {policy phys base : Nat}

/-- Without the opt-in no entry of a capsule that is restored is marked. -/
theorem Restorable.unmarked (h : Restorable c policy) (hpolicy : policy &&& allowExternalPhys = 0) {j : Nat}
    (hj : j < entryCount c) : (dirent c j).flags &&& efExternalPhys = 0 := by
  by_contra hmarked
  exact h.allowed ⟨j, hj, hmarked⟩ hpolicy

/-- Then INFO has no next context. -/
theorem Restored.context (h : Restored c policy phys base m) (hpolicy : policy &&& allowExternalPhys = 0) :
    get64 m (base + 128) = 0 := by
  have hpayload : get64 c ((dirent c 0).offset + 96) = 0 := by
    by_contra hne
    exact h.restorable.context hne (h.restorable.unmarked hpolicy (Nat.pos_of_ne_zero h.restorable.nonempty))
  rw [← hpayload]
  refine Mem.getLE_congr fun i hi => ?_
  have hbyte := h.info.context (96 + i) (by omega) (by omega)
  rwa [← Nat.add_assoc, ← Nat.add_assoc] at hbyte

/-- And the tags are self-contained: an entry that refers to something is
refused unless it is marked, and a marked one is not taken. -/
theorem Restored.contained (h : Restored c policy phys base m) (hpolicy : policy &&& allowExternalPhys = 0) :
    ∀ v ∈ restoredTags c phys base, SelfContained m v.ptr v.size := by
  intro v hv
  obtain ⟨j, hj, rfl⟩ := List.mem_map.mp hv
  have hj := List.mem_range.mp hj
  have hok := h.restorable.tags j hj
  have hrefs := (h.same hj).references hok.low
  obtain ⟨b, hb⟩ := Option.ne_none_iff_exists'.mp hok.known
  refine (tagExternalReferences_spec (hrefs.trans hb)).2 ?_
  by_contra hexternal
  rw [Bool.not_eq_false] at hexternal
  exact hok.declared (hexternal ▸ hb) (h.restorable.unmarked hpolicy (by omega))

end Back

/-- Neither bridge lets a reference through. A capsule out of `bbp_v2_from_v1`
marks exactly the entries that refer to something, and without the opt-in it
has none; without the opt-in `bbp_v2_to_v1` takes no marked entry, leaves INFO
without a next context, and its tags, which are the chain at `output`, are
self-contained. Of the forward bridge's source only INFO must stand apart from
the workspace's payload: `bbp_bridge.h` asks that it stay immutable. -/
theorem bridges_never_smuggle (m : Mem) (policy output capacity w₀ : Nat) (report : Option Report) :
    (∀ (source : Source) (workspace : Nat) (r : Forward),
      fromV1 m (some source) policy (some workspace) output capacity (some w₀) report = r → r.status = .ok () →
      source.info + 144 ≤ workspace ∨ workspace + 104 ≤ source.info →
      ∃ n view, r.written = some n ∧ (∀ out, (parse output n (some out)).val r.mem = (.ok (), some view)) ∧
        view.entryCount = infoTagCount m source.info + 1 ∧
        ∀ j < view.entryCount, ∀ ev₀, ∃ ev,
          (getEntry (some view) j (some ev₀)).val r.mem = (.ok (), some ev) ∧ EntryTells r.mem j ev ∧
            (policy &&& allowExternalPhys = 0 → EntryClean r.mem j ev)) ∧
    (∀ (source : View) (phys : Nat) (r : Reverse),
      toV1 m (some source) policy output capacity phys (some w₀) report = r → r.status = .ok () →
      policy &&& allowExternalPhys = 0 →
      ∃ view tags, (∀ out, (parse source.data source.totalSize (some out)).val m = (.ok (), some view)) ∧
        (∀ j < view.entryCount, ∀ ev₀, ∃ ev,
          (getEntry (some view) j (some ev₀)).val m = (.ok (), some ev) ∧ ¬ Marked ev) ∧
        get64 r.mem (output + 128) = 0 ∧
        IsChain r.mem (fun p _ => output + (p - phys)) (infoFirstTag r.mem output) tags ∧
        tags.length = infoTagCount r.mem output ∧ ∀ v ∈ tags, SelfContained r.mem v.ptr v.size) := by
  refine ⟨fun source workspace r hr hok hinfo => fromV1_tells hr hok hinfo, ?_⟩
  intro source phys r hr hok hpolicy
  obtain ⟨hne, hout, hwf, hrestorable, hplaced, _, hmem⟩ := toV1_inv hr hok
  obtain ⟨m', hrun, _, hrestored⟩ := emitHandoff_restored hne hout hwf hrestorable hplaced
  rw [hrun] at hmem
  subst hmem
  refine ⟨_, restoredTags (m.based source.data) phys output, fun out => parse_val_ok hne hwf,
    fun j hj ev₀ => ⟨_, getEntry_val_ok hne hwf hj, ?_⟩, hrestored.context hpolicy, ⟨hrestored.linked, ?_, ?_⟩, ?_,
    hrestored.contained hpolicy⟩
  · exact not_not_intro (hrestorable.unmarked hpolicy hj)
  · intro v hv
    obtain ⟨offset, haddr, hptr, _⟩ := restoredTags_inside hv
    rw [haddr, hptr, Nat.add_sub_cancel_left]
  · exact fun v hv => (hrestored.sound v hv).size
  · rw [restoredTags_length, hrestored.info.count]

/-- The sample handoff goes out, and the shuffled capsule comes back, without
the opt-in. -/
theorem bridges_never_smuggle_sample :
    (∃ r n view, fromV1 sampleHandoff (some ⟨0x11000, some (kernelMap sampleKctx)⟩) 0 (some 0x20000) 0x30000 4096
        (some 0) none = r ∧ r.status = .ok () ∧
      (∀ out, (parse 0x30000 n (some out)).val r.mem = (.ok (), some view)) ∧ view.entryCount = 3 ∧
      ∀ j < 3, ∃ ev, (getEntry (some view) j (some ⟨0, 0, 0, 0, 0, 0, 0, 0⟩)).val r.mem = (.ok (), some ev) ∧
        EntryClean r.mem j ev) ∧
    ∃ (r : Reverse) (tags : List V1Tag),
      toV1 shuffledCapsule (some ⟨0x1000, 456, 0, 0, 0⟩) 0 0x4000 4096 0x2000 (some 0) none = r ∧
      r.status = .ok () ∧ get64 r.mem (0x4000 + 128) = 0 ∧ tags.length = 2 ∧
      ∀ v ∈ tags, SelfContained r.mem v.ptr v.size := by
  constructor
  · obtain ⟨r, hr⟩ : ∃ r, fromV1 sampleHandoff (some ⟨0x11000, some (kernelMap sampleKctx)⟩) 0 (some 0x20000) 0x30000
      4096 (some 0) none = r := ⟨_, rfl⟩
    obtain ⟨hok, _, _⟩ := sampleHandoff_converted hr
    obtain ⟨n, view, _, hparse, hcount, hall⟩ := (bridges_never_smuggle sampleHandoff 0 0x30000 4096 0 none).1
      ⟨0x11000, some (kernelMap sampleKctx)⟩ 0x20000 r hr hok (by decide)
    have hcount : view.entryCount = 3 := hcount.trans (by decide +kernel)
    refine ⟨r, n, view, hr, hok, hparse, hcount, fun j hj => ?_⟩
    obtain ⟨ev, hev, _, hclean⟩ := hall j (hcount ▸ hj) ⟨0, 0, 0, 0, 0, 0, 0, 0⟩
    exact ⟨ev, hev, hclean (by decide)⟩
  · obtain ⟨r, hr⟩ : ∃ r, toV1 shuffledCapsule (some ⟨0x1000, 456, 0, 0, 0⟩) 0 0x4000 4096 0x2000 (some 0) none = r :=
      ⟨_, rfl⟩
    have hrun : r.status = .ok () ∧ infoTagCount r.mem 0x4000 = 2 := by
      rw [← hr]
      decide +kernel
    obtain ⟨_, tags, _, _, hcontext, _, hlength, hcontained⟩ :=
      (bridges_never_smuggle shuffledCapsule 0 0x4000 4096 0 none).2 ⟨0x1000, 456, 0, 0, 0⟩ 0x2000 r hr hrun.1
        (by decide)
    exact ⟨r, tags, hr, hrun.1, hcontext, hlength.trans hrun.2, hcontained⟩

end BearBoot.Bridge
