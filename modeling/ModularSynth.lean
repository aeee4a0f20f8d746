import ModularSynth.Audio.Load
import ModularSynth.Main
import ModularSynth.Proofs.DelayTimes
import ModularSynth.Proofs.PlayedScore
import ModularSynth.Proofs.RenderParts
import ModularSynth.Proofs.CoreParts
import ModularSynth.Proofs.Limits
import ModularSynth.Proofs.Updates
import ModularSynth.Proofs.CoreLimits
import ModularSynth.Proofs.CoreRender
import ModularSynth.Proofs.CoreStreams
import ModularSynth.Ensemble.Workers
import ModularSynth.Proofs.Deliveries
import ModularSynth.Proofs.FrameStarts
import ModularSynth.Proofs.StackFloor
import ModularSynth.Proofs.BusLeft
import ModularSynth.Proofs.VoiceCode
import ModularSynth.Proofs.SlotOwners
import ModularSynth.Proofs.TrackBlocks
import ModularSynth.Proofs.ActiveUnits
import ModularSynth.Proofs.SufficientFeatures
import ModularSynth.Proofs.TightArray
import ModularSynth.Proofs.ShortArray
import ModularSynth.Proofs.ConvertedTimes
import ModularSynth.Proofs.DelayLines
import ModularSynth.Bytecode.Writer
import ModularSynth.Proofs.OnePass
import ModularSynth.Proofs.Placement
import ModularSynth.Proofs.WrittenPatch
import ModularSynth.Proofs.SendLayout
import ModularSynth.Proofs.TwoRuns
import ModularSynth.Proofs.PortSeven
import ModularSynth.Proofs.Unheard
import ModularSynth.Proofs.JsonNumbers
import ModularSynth.Proofs.JsonValues
import ModularSynth.Proofs.LegacySettings
import ModularSynth.Proofs.ReadSongs
import ModularSynth.Proofs.SongFiles
import ModularSynth.Proofs.Recordings
import ModularSynth.Proofs.Acceptance
import ModularSynth.Proofs.LineAccesses
import ModularSynth.Proofs.DelayRings
import ModularSynth.Proofs.ElidedTargets
import ModularSynth.Proofs.DistinctPatterns
import ModularSynth.Proofs.FailedFrames
import ModularSynth.Proofs.OpcodeLoop
import ModularSynth.Proofs.RenderBounds
import ModularSynth.Proofs.WorkerOrders
import ModularSynth.Proofs.ExactLength
import ModularSynth.Proofs.OscillatorPhases
import ModularSynth.Proofs.TrappedSignals
import ModularSynth.Proofs.LastOutputs
import ModularSynth.Proofs.ExportedAudio
import ModularSynth.Proofs.KeptFiles
