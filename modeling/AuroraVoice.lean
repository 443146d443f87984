import AuroraVoice.PluginLedger
import AuroraVoice.PluginGuard
import AuroraVoice.PluginHistory
import AuroraVoice.InputTransfer
import AuroraVoice.PredictedLabel
import AuroraVoice.Readiness
import AuroraVoice.FailedSwitch
import AuroraVoice.Listening
import AuroraVoice.Progress
import AuroraVoice.ModelCalls
import AuroraVoice.Reachability
import AuroraVoice.Overlap
import AuroraVoice.Crossing
import AuroraVoice.TemporaryFiles
import AuroraVoice.HappyPath
import AuroraVoice.Refinement
import AuroraVoice.Teardown
import AuroraVoice.Instances
import AuroraVoice.FileNames
import AuroraVoice.StopListening
import AuroraVoice.PerformanceScreen
import AuroraVoice.Screens
import AuroraVoice.MicrophoneButton
import AuroraVoice.MountedScreens
import AuroraVoice.Disposed
import AuroraVoice.ArenaResets
import AuroraVoice.PluginArena
import AuroraVoice.Footprint
import AuroraVoice.Completions
import AuroraVoice.SubgraphArena
import AuroraVoice.DynamicSubgraph
import AuroraVoice.TensorSize
import AuroraVoice.NativeBuffers
import AuroraVoice.Commands
