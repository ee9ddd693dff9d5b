import Lacuna.Qcow2.Transparency
import Lacuna.Qcow2.Reopen
import Lacuna.Swap.NoPlaintext
import Lacuna.Swap.Keystream
import Lacuna.Crypt.Gcrypt
import Lacuna.Mm.Lifetime
import Lacuna.Mm.Coverage
import Lacuna.Kex.Secrets
import Lacuna.Crypt.Erasure
import Lacuna.Usb.Confidential
import Lacuna.Usb.EndToEnd
import Lacuna.Net.Queue
import Lacuna.Sound.Capture
import Lacuna.Sound.Player
import Lacuna.Sound.Pcm
import Lacuna.Swap.RoundTrip
import Lacuna.Net.Wire
import Lacuna.Net.NicInit
import Lacuna.Swap.DeadCipher
import Lacuna.Swap.Accounting
import Lacuna.Display.Aes
import Lacuna.Qcow2.Sectors
import Lacuna.Crypt.ContextList
import Lacuna.Kex.Replies
import Lacuna.Kex.Atomic
import Lacuna.Net.Receive
import Lacuna.Usb.Lengths
import Lacuna.Usb.Lifecycle
import Lacuna.Crypt.Setup
import Lacuna.Crypt.Teardown
import Lacuna.Mm.Scan
import Lacuna.Swap.BulkCleanup
import Lacuna.Sound.Channels
import Lacuna.Sound.Mixing
import Lacuna.Sound.WritePending
import Lacuna.Input.Handles
import Lacuna.Display.HandOff
import Lacuna.Display.Pipeline
