import TangemKeys.Py.Text
import TangemKeys.Py.Int
import TangemKeys.Keccak
import TangemKeys.Secp256k1
import TangemKeys.Curve
import TangemKeys.EthKeys
import TangemKeys.Derive
import TangemKeys.Recovery
