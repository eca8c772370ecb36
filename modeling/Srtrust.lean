import Srtrust.Buffers.Loss
import Srtrust.Buffers.History
import Srtrust.Buffers.Completeness
import Srtrust.Connection.Retransmission
import Srtrust.Session.Termination
import Srtrust.Session.Playout
import Srtrust.Session.Pacing
import Srtrust.Session.Clockwork
import Srtrust.Session.Rotation
import Srtrust.Session.Demux
import Srtrust.Session.Confirmation
import Srtrust.Session.Reports
import Srtrust.Session.Draining
import Srtrust.Session.Keyring
import Srtrust.Session.Acknowledgement
import Srtrust.Driver.Batch
import Srtrust.Driver.Handover
import Srtrust.Driver.Waiting
import Srtrust.Driver.Stack
