import BearBoot.Machine.Bits
import BearBoot.Machine.Mem
import BearBoot.Machine.Traced
import BearBoot.Machine.Settle
import BearBoot.Machine.Slice
import BearBoot.Machine.Path
import BearBoot.Machine.Span
import BearBoot.Machine.Run
import BearBoot.Machine.Owned
import BearBoot.Machine.Json
import BearBoot.Machine.Pack
import BearBoot.Machine.Utf8
import BearBoot.Machine.Bitstring
import BearBoot.Machine.Paging
import BearBoot.Crc64
import BearBoot.Wire
import BearBoot.Burst
import BearBoot.Kernel.Model
import BearBoot.Kernel.Walk
import BearBoot.Kernel.NoFault
import BearBoot.Kernel.Chain
import BearBoot.Kernel.Lookup
import BearBoot.Kernel.Evidence
import BearBoot.Kernel.Rust
import BearBoot.Bootloader.Build
import BearBoot.Bootloader.Session
import BearBoot.Bootloader.RoundTrip
import BearBoot.Bootloader.Objects
import BearBoot.V2.Capsule
import BearBoot.V2.Parse
import BearBoot.V2.Accept
import BearBoot.V2.Encode
import BearBoot.V2.Build
import BearBoot.V2.Rust
import BearBoot.V2.Python
import BearBoot.V2.Agreement
import BearBoot.V2.Profile
import BearBoot.V2.ProfileGrammar
import BearBoot.V2.ProfileAgree
import BearBoot.V2.Digest
import BearBoot.Detect
import BearBoot.Bridge.Model
import BearBoot.Bridge.Fields
import BearBoot.Bridge.Chain
import BearBoot.Bridge.Forward
import BearBoot.Bridge.Refine
import BearBoot.Bridge.Reverse
import BearBoot.Bridge.RoundTrip
import BearBoot.Bridge.External
import BearBoot.Bridge.Atomic
import BearBoot.Rollback.Model
import BearBoot.Rollback.Record
import BearBoot.Rollback.Authority
import BearBoot.Rollback.Crash
import BearBoot.Envelope.Model
import BearBoot.Envelope.Agreement
import BearBoot.Envelope.Replay
import BearBoot.Bbpctl.Model
import BearBoot.Bbpctl.Evidence
import BearBoot.Bbpctl.Verify
import BearBoot.Auth2.Der
import BearBoot.Auth2.Model
import BearBoot.Auth2.Accept
import BearBoot.Auth2.Policy
import BearBoot.Import.Common
import BearBoot.Import.Limine
import BearBoot.Import.Uefi
import BearBoot.Import.Multiboot2
import BearBoot.Import.Track
import BearBoot.Import.Objects
import BearBoot.Import.Scan
import BearBoot.Import.Atomic
import BearBoot.Import.Handoff
import BearBoot.Import.Cmdline
import BearBoot.Import.Utf8
import BearBoot.Import.Faithful
import BearBoot.Tcg2.Sha256
import BearBoot.Tcg2.Fips
import BearBoot.Security.Model
import BearBoot.Security.Atomic
import BearBoot.Security.Publish
import BearBoot.Security.Collect
import BearBoot.Stamp.Model
import BearBoot.Stamp.Agree
import BearBoot.Loader.Elf
import BearBoot.Loader.Plan
import BearBoot.Loader.PageTables
import BearBoot.Loader.Tables
import BearBoot.Loader.Identity
import BearBoot.Loader.Mapping
import BearBoot.Loader.Progress
import BearBoot.Loader.Exact
import BearBoot.Loader.Load
import BearBoot.Loader.Exit
import BearBoot.Loader.Discipline
import BearBoot.Loader.Handoff
import BearBoot.Loader.Producers
import BearBoot.Loader.Main
import BearBoot.Checksums
import BearBoot.Loader.Release
import BearBoot.Loader.Header
import BearBoot.Loader.Arrival
