import ApprtcCli.Signaling.Client
import ApprtcCli.Video.Broadcast
import ApprtcCli.Video.Decode
import ApprtcCli.Lib.Accumulator
import ApprtcCli.Audio.SineWave
import ApprtcCli.Proof.Timers
import ApprtcCli.Proof.Outcome
import ApprtcCli.Proof.Pointers
import ApprtcCli.Proof.Room
import ApprtcCli.Proof.Transport
import ApprtcCli.Proof.Buffer
import ApprtcCli.Proof.Urls
import ApprtcCli.Proof.Setbacks
import ApprtcCli.Proof.Gathering
import ApprtcCli.Signaling.Network
import ApprtcCli.Proof.Closing
import ApprtcCli.Call.Endpoint
import ApprtcCli.Proof.Turns
import ApprtcCli.Proof.Asking
import ApprtcCli.Proof.Ready
import ApprtcCli.Proof.Linked
import ApprtcCli.Proof.Registering
import ApprtcCli.Proof.Tone
import ApprtcCli.Proof.Ending
import ApprtcCli.Proof.Agreement
import ApprtcCli.Proof.Sessions
import ApprtcCli.Lib.Owner
import ApprtcCli.Video.Source
import ApprtcCli.Proof.Delivery
import ApprtcCli.Proof.Carried
import ApprtcCli.Call.Program
import ApprtcCli.Proof.Earned
import ApprtcCli.Proof.HangUp
import ApprtcCli.Proof.Program
import ApprtcCli.Proof.Stats
