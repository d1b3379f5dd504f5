import CartBoot.Fat.BootSector
import CartBoot.Disk.Window
import CartBoot.Fat.Image
import CartBoot.Stream.Memory
import CartBoot.Stream.Chain
import CartBoot.Cart.Scope
import CartBoot.Copy
import CartBoot.Image.Layout
import CartBoot.Image.Metadata
import CartBoot.Boot.Descriptor
import CartBoot.Save
import CartBoot.Boot.Launch
import CartBoot.Boot.SecondStage
import CartBoot.Proofs.Walk
import CartBoot.Proofs.Cursor
import CartBoot.Proofs.Transfer
import CartBoot.Proofs.Requests
import CartBoot.Proofs.Coherence
import CartBoot.Proofs.Chains
import CartBoot.Proofs.Files
import CartBoot.Proofs.Refinement
import CartBoot.Proofs.Descriptor
import CartBoot.Proofs.Handover
import CartBoot.Proofs.Copies
import CartBoot.Proofs.Placement
import CartBoot.Proofs.Traffic
import CartBoot.Proofs.Confinement
import CartBoot.Proofs.Folding
import CartBoot.Proofs.Launching
import CartBoot.Proofs.Recovery
import CartBoot.Proofs.Selection
import CartBoot.Proofs.Exchange
import CartBoot.Proofs.Mounting
import CartBoot.Proofs.BootSectors
import CartBoot.Proofs.ChainEnds
import CartBoot.Proofs.Seeking
import CartBoot.Proofs.BulkRuns
import CartBoot.Proofs.Registers
import CartBoot.Proofs.Exposure
import CartBoot.Proofs.Staging
import CartBoot.Proofs.SaveCycle
import CartBoot.Proofs.Seeding
import CartBoot.Proofs.Places
import CartBoot.Proofs.Reports
import CartBoot.Proofs.Entries
import CartBoot.Proofs.Formatting
import CartBoot.Proofs.Failures
import CartBoot.Proofs.Metadata
import CartBoot.Proofs.FlashBackup
import CartBoot.Proofs.Patching
import CartBoot.Proofs.PatchedBoot
import CartBoot.Proofs.DataArea
import CartBoot.Proofs.Spaces
import CartBoot.Proofs.Pieces
import CartBoot.Proofs.BootRegisters
import CartBoot.Proofs.LookUps
