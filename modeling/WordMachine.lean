import WordMachine.Main
import WordMachine.Proofs.FailingSteps
import WordMachine.Proofs.RunCourse
import WordMachine.Proofs.Transparency
import WordMachine.Proofs.LayoutSteps
import WordMachine.Proofs.LayoutExactness
import WordMachine.Proofs.SourceLimits
import WordMachine.Proofs.FilledSources
import WordMachine.Proofs.PieceColumns
import WordMachine.Proofs.ExactPlaces
import WordMachine.Proofs.ChangedRegions
import WordMachine.Proofs.SessionHistory
import WordMachine.Proofs.TimeTravel
import WordMachine.Proofs.WatchHits
import WordMachine.Proofs.StackSteps
import WordMachine.Proofs.CallReturn
import WordMachine.Proofs.AvoidedFailures
import WordMachine.Proofs.OperandSoundness
import WordMachine.Proofs.PauseMarks
import WordMachine.Proofs.EarlyValues
import WordMachine.Proofs.BranchTargets
import WordMachine.Proofs.ProgramFit
import WordMachine.Proofs.StackFrames
import WordMachine.Proofs.WordStack
import WordMachine.Proofs.StackRuns
import WordMachine.Proofs.EngineMoves
import WordMachine.Proofs.EngineHistory
import WordMachine.Proofs.CommandAnswers
import WordMachine.Proofs.SharedTokens
import WordMachine.Proofs.Requests
import WordMachine.Proofs.Outcomes
import WordMachine.Proofs.QuotedLiterals
import WordMachine.Proofs.OperandLists
import WordMachine.Proofs.ReadableDisassembly
import WordMachine.Proofs.StringData
import WordMachine.Proofs.LineNumbers
import WordMachine.Proofs.CommentedSources
import WordMachine.Proofs.MaximalRuns
import WordMachine.Proofs.StateReports
import WordMachine.Proofs.FreshReset
import WordMachine.Proofs.InstructionEffects
import WordMachine.Proofs.InstructionFrames
import WordMachine.Proofs.LetterCase
import WordMachine.Proofs.RecasedTexts
import WordMachine.Proofs.RecasedLines
import WordMachine.Proofs.RecasedOperands
import WordMachine.Proofs.RecasedLayout
import WordMachine.Proofs.RecasedSources
import WordMachine.Proofs.ProtectedData
import WordMachine.Proofs.Calculations
import WordMachine.Proofs.IntegerArithmetic
import WordMachine.Proofs.ComparedWords
import WordMachine.Proofs.NumberValues
import WordMachine.Proofs.WordAccess
import WordMachine.Proofs.ByteRanges
import WordMachine.Proofs.ByteReading
import WordMachine.Proofs.OffsetOperands
import WordMachine.Proofs.SourcePositions
import WordMachine.Proofs.RejectionPlaces
import WordMachine.Proofs.ReportedSpans
import WordMachine.Proofs.ImageDifferences
import WordMachine.Proofs.SurplusArguments
import WordMachine.Proofs.BreakpointMap
import WordMachine.Proofs.ConsoleLines
import WordMachine.Proofs.NearestWords
import WordMachine.Proofs.OperandCuts
