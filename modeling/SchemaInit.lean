import SchemaInit.FdClose.Exact
import SchemaInit.Dbus.Relay
import SchemaInit.Dbus.ReplyRoute
import SchemaInit.Engine.Deadlock
import SchemaInit.Engine.Shielded
import SchemaInit.Dbus.Queue
import SchemaInit.Dbus.Pending
import SchemaInit.Dbus.PolicyAgree
import SchemaInit.Dbus.Restart
import SchemaInit.Engine.Shm
import SchemaInit.Engine.ShutdownStall
import SchemaInit.Engine.Ctl
import SchemaInit.Engine.Datagram
import SchemaInit.Dbus.Outbound
import SchemaInit.Logind.Uaccess
import SchemaInit.Engine.Groups
import SchemaInit.Engine.Backoff
import SchemaInit.Engine.Launch
import SchemaInit.Engine.CtlRestart
import SchemaInit.Engine.Cycles
import SchemaInit.Dbus.NameLimit
import SchemaInit.Engine.Poll
import SchemaInit.Engine.Exclusion
import SchemaInit.Dbus.ActivationEnv
import SchemaInit.Dbus.Stream
import SchemaInit.Udev.Links
import SchemaInit.Engine.Cmdline
import SchemaInit.Engine.Listen
import SchemaInit.Sink.Record
import SchemaInit.Recorder
import SchemaInit.Bootguard
