import ViciMinter.Access
import ViciMinter.Amount
import ViciMinter.Audit
import ViciMinter.Calls
import ViciMinter.Converge
import ViciMinter.Delivery
import ViciMinter.Duplicate
import ViciMinter.Idempotency
import ViciMinter.Independence
import ViciMinter.InitReserves
import ViciMinter.Isolation
import ViciMinter.Lib.Serial
import ViciMinter.Lib.TwoPhase
import ViciMinter.Lifting
import ViciMinter.Limits
import ViciMinter.MaxBalance
import ViciMinter.Minimum
import ViciMinter.Monotone
import ViciMinter.Ownership
import ViciMinter.Policy
import ViciMinter.Preview
import ViciMinter.Quota
import ViciMinter.Receipts
import ViciMinter.Recovery
import ViciMinter.Registry
import ViciMinter.Reruns
import ViciMinter.Rest
import ViciMinter.Schedule
import ViciMinter.Serializable
import ViciMinter.Supply
import ViciMinter.Traceless
import ViciMinter.Trigger
import ViciMinter.Updates
import ViciMinter.Upgrade
