import Arcade8080.Board.Log
import Arcade8080.CommandLine.Folder
import Arcade8080.Main
import Arcade8080.Proofs.Board.SaveState
import Arcade8080.Proofs.Board.Transcript
import Arcade8080.Proofs.Computer.TornStore
import Arcade8080.Proofs.Pacing.Tick
import Arcade8080.Proofs.RomIntegrity
import Arcade8080.Proofs.Saved.Canonical
import Arcade8080.Proofs.Computer.Footprint
import Arcade8080.Proofs.Computer.Locality
import Arcade8080.Proofs.Computer.Run
import Arcade8080.Proofs.Computer.StraightLine
import Arcade8080.Proofs.Computer.Stack
import Arcade8080.Proofs.Computer.Subroutine
import Arcade8080.Proofs.Computer.ListStack
import Arcade8080.Proofs.Computer.Latch
import Arcade8080.Proofs.Board.Crash
import Arcade8080.Proofs.Computer.Recurrence
import Arcade8080.Proofs.Board.Reproduction
import Arcade8080.Proofs.Board.SoundEdges
import Arcade8080.Proofs.Board.Sounds
import Arcade8080.Proofs.Arithmetic.PackedDecimal
import Arcade8080.Proofs.Computer.DecimalArithmetic
import Arcade8080.Proofs.Arithmetic.Equations
import Arcade8080.Proofs.Computer.BinaryArithmetic
import Arcade8080.Proofs.Computer.ArithmeticInstructions
import Arcade8080.Proofs.Arithmetic.Agreement
import Arcade8080.Proofs.Computer.SideBySide
import Arcade8080.Proofs.Computer.DataMovement
import Arcade8080.Proofs.Computer.Branching
import Arcade8080.Proofs.Pacing.Slicing
import Arcade8080.Proofs.Board.Requests
import Arcade8080.Proofs.Board.Elapsed
import Arcade8080.Proofs.Arithmetic.Bits
import Arcade8080.Proofs.Board.Controls
import Arcade8080.Proofs.Board.Shifting
import Arcade8080.Proofs.Board.SoundReports
import Arcade8080.Proofs.Board.Pressing
import Arcade8080.Proofs.Board.Resetting
import Arcade8080.Proofs.CommandLine.Arguments
import Arcade8080.Proofs.Board.Starvation
