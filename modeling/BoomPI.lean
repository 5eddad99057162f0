import BoomPI.Server.Session.StreamLaw
import BoomPI.Server.Session.Isolation
import BoomPI.Server.Session.Delivery
import BoomPI.Server.Pipeline.Memory
import BoomPI.Server.Ready
import BoomPI.Server.Qwen.Items
import BoomPI.Server.Qwen.Handover
import BoomPI.Server.Transport.Congestion
import BoomPI.Server.Device.Fence
import BoomPI.Server.Device.Terminal
import BoomPI.Server.Device.Pacing
import BoomPI.Server.Device.Rejection
import BoomPI.Server.Device.NextTurn
import BoomPI.Server.Device.Downlink
import BoomPI.Wire.Agreement
import BoomPI.Wire.RoundTrip
import BoomPI.Dialogue.Schema
import BoomPI.Client.Emission
import BoomPI.Server.Pipeline.Window
import BoomPI.Server.Pipeline.Rollback
import BoomPI.Server.Qwen.Writer
import BoomPI.Client.VoiceClient
import BoomPI.Blocks
import BoomPI.Client.Barge
import BoomPI.Client.Backlog
import BoomPI.Client.Fence
import BoomPI.Server.Asr
import BoomPI.Server.Asr.Integrity
import BoomPI.Server.Asr.Single
import BoomPI.Client.Audio.Backend
import BoomPI.Client.Audio.Vad
import BoomPI.Server.Pipeline.Retention
import BoomPI.Past
import BoomPI.Client.Audio.Gate
import BoomPI.Client.Audio.NearVoice
import BoomPI.Server.Speech
import BoomPI.Server.Speech.Inline
import BoomPI.Server.Speech.Link
import BoomPI.Server.Speech.Lossless
import BoomPI.Server.Speech.Fragments
import BoomPI.Client.Audio.Playback
import BoomPI.Client.Audio.TtsRing
import BoomPI.Client.Audio.PlaybackSession
import BoomPI.Client.Audio.PlaybackEnd
import BoomPI.Cadence
import BoomPI.Client.Audio.VoiceDsp
import BoomPI.Server.Device.Clock
import BoomPI.Base64
import BoomPI.Client.Endpoint
import BoomPI.Client.EventLoop
import BoomPI.Client.Subtitle
import BoomPI.GoText
import BoomPI.Server.Config
import BoomPI.Client.Audio.Transfer
import BoomPI.Dialogue.Conformance
import BoomPI.Dialogue.Exchange
import BoomPI.Dialogue.Conversation
import BoomPI.Dialogue.Uplink
import BoomPI.Dialogue.Speaking
import BoomPI.Dialogue.Turns
import BoomPI.Client.Audio.CaptureQueue
import BoomPI.Scan
import BoomPI.Client.Bootstrap
import BoomPI.Server.Discovery
import BoomPI.Dialogue.Pairing
