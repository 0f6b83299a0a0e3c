import Robstride.Protocol.Fields
import Robstride.Protocol.Roundtrip
import Robstride.Serial.Deaf
import Robstride.Serial.Stream
import Robstride.Serial.Words
import Robstride.Serial.Torn
import Robstride.Serial.Resync
import Robstride.Serial.Queue
import Robstride.SocketCan.Link
import Robstride.Transport.Gone
import Robstride.Motor.Setup
import Robstride.Motor.Disconnect
import Robstride.Motor.Locks
import Robstride.Motor.Sequence
import Robstride.Motor.Reading
import Robstride.Motor.Stop
import Robstride.Motor.Overrun
import Robstride.Motor.Control
import Robstride.Motor.Dispatch
import Robstride.Motor.Waiting
import Robstride.Motor.Frames
import Robstride.Motor.Separation
import Robstride.Motor.Counting
import Robstride.Motor.Unsent
import Robstride.Motor.Saturation
import Robstride.Motor.Unknown
import Robstride.Motor.Parameter
import Robstride.Motor.Telemetry
import Robstride.Motor.Delivery
import Robstride.Motor.Progress
import Robstride.Motor.Mute
import Robstride.Motor.Line
import Robstride.Transport.Descriptors
import Robstride.Transport.Calls
import Robstride.Protocol.Returns
