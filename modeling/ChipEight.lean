import ChipEight.Instruction.Encoding
import ChipEight.Machine.Journal
import ChipEight.Main
import ChipEight.Peripheral.Scripted
import ChipEight.Proofs.Decoding
import ChipEight.Proofs.Effect
import ChipEight.Proofs.Cycle
import ChipEight.Proofs.CycleFault
import ChipEight.Proofs.Atomicity
import ChipEight.Proofs.Soundness
import ChipEight.Proofs.WorkerFrames
import ChipEight.Proofs.WorkerRuns
import ChipEight.Proofs.SessionMoves
import ChipEight.Proofs.KeyStrike
import ChipEight.Proofs.Shutdown
import ChipEight.Proofs.Subroutine
import ChipEight.Proofs.Formats
import ChipEight.Proofs.Timers
import ChipEight.Proofs.TwoRuns
import ChipEight.Proofs.Reset
import ChipEight.Proofs.TimeFlow
import ChipEight.Proofs.Footprint
import ChipEight.Proofs.Usage
import ChipEight.Proofs.ProgramCounter
import ChipEight.Proofs.FramesTaken
import ChipEight.Proofs.TextureCopy
import ChipEight.Proofs.Presenting
import ChipEight.Proofs.FinalPicture
import ChipEight.Proofs.PictureSequence
import ChipEight.Proofs.SpriteHits
import ChipEight.Proofs.DrawInstruction
import ChipEight.Proofs.Arithmetic
import ChipEight.Proofs.MemoryAccess
import ChipEight.Proofs.Transfers
import ChipEight.Proofs.ControlFlow
import ChipEight.Proofs.EventHandling
import ChipEight.Proofs.KeysDown
import ChipEight.Proofs.Rendering
import ChipEight.Proofs.HostStages
import ChipEight.Proofs.Starting
