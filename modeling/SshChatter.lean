import SshChatter.Display.Stability
import SshChatter.Sync.Reader
import SshChatter.Jwt.Token
import SshChatter.UserData.ConcurrentSave
import SshChatter.UserData.SaveSafety
import SshChatter.JsonApi.History
import SshChatter.Games.OthelloAcceptance
import SshChatter.Games.GonuPlay
import SshChatter.JsonApi.Framing
import SshChatter.JsonApi.FieldLookup
import SshChatter.Security.OnionIntegrity
import SshChatter.Ddial.DialInTransparency
import SshChatter.Ddial.SlotRegistry
import SshChatter.Ddial.MemberRoundTrip
import SshChatter.Ddial.ClientBacklog
import SshChatter.Ddial.LinkSafety
import SshChatter.Ddial.AccountSafety
import SshChatter.Ddial.PacedOutput
import SshChatter.Ddial.DialInFraming
import SshChatter.HostState.PreferenceMigration
import SshChatter.Ddial.MemberInterleaving
import SshChatter.Ddial.BootEnforcement
import SshChatter.Preferences.StoreIsolation
import SshChatter.Moderation.BlockLaw
import SshChatter.Scrollback.Paging
import SshChatter.Moderation.PipelineSafety
import SshChatter.Rss.TableInvariant
import SshChatter.Bbs.Tallies
import SshChatter.Telnet.InputExact
import SshChatter.Polls.VoteRestart
import SshChatter.Display.WrapRecovered
import SshChatter.Ddial.LinkEmail
import SshChatter.Bbs.ListPages
import SshChatter.Doors.SessionCount
import SshChatter.Doors.OutputStream
import SshChatter.Bbs.IdleUnload
import SshChatter.Games.OthelloMove
import SshChatter.Security.CidrGrammar
import SshChatter.Translation.WrapText
import SshChatter.Transport.GuardEscalation
import SshChatter.Input.ArrowKeys
import SshChatter.FileTransfer.CanonicalName
import SshChatter.JsonApi.DecodeString
import SshChatter.Ddial.StationList
import SshChatter.Ddial.UserModeSend
import SshChatter.Ddial.MailLaw
import SshChatter.Ddial.ColoredHandle
import SshChatter.UserData.ColumnReset
import SshChatter.Ddial.MvReverse
import SshChatter.Transport.CompactId
import SshChatter.HostState.ReactionExact
import SshChatter.Output.PlainLine
import SshChatter.Bbs.FloodControl
import SshChatter.AiChat.Memory
import SshChatter.Rss.RefreshTwice
import SshChatter.Output.ThemeSurvival
import SshChatter.Telnet.CollectLine
