import SegmentLog.Disk.Lemmas
import SegmentLog.Main
import SegmentLog.Octets.Lemmas
import SegmentLog.Proofs.Adrift
import SegmentLog.Proofs.Bursts
import SegmentLog.Proofs.Closing
import SegmentLog.Proofs.Cutting
import SegmentLog.Proofs.Discipline
import SegmentLog.Proofs.Durability
import SegmentLog.Proofs.Endings
import SegmentLog.Proofs.Exactness
import SegmentLog.Proofs.Exhaustion
import SegmentLog.Proofs.Exposure
import SegmentLog.Proofs.Finality
import SegmentLog.Proofs.Freshness
import SegmentLog.Proofs.Inertness
import SegmentLog.Proofs.Invocations
import SegmentLog.Proofs.Leftovers
import SegmentLog.Proofs.Lossless
import SegmentLog.Proofs.Offsets
import SegmentLog.Proofs.RefusedCuts
import SegmentLog.Proofs.Registers
import SegmentLog.Proofs.Repair
import SegmentLog.Proofs.Reports
import SegmentLog.Proofs.Rotation
import SegmentLog.Proofs.Sequence
import SegmentLog.Proofs.Spelling
import SegmentLog.Proofs.Strictness
import SegmentLog.Proofs.Views
import SegmentLog.Proofs.Wakes
import SegmentLog.Proofs.Writing
import SegmentLog.Ticket.Lemmas
