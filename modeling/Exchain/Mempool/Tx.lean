import Mathlib.Data.List.Basic

namespace Exchain.Mempool

abbrev Address := String

/-- The fields of a checked transaction (mempoolTx and the realTx it holds) that
the queues read. -/
structure MempoolTx where
  tx : List UInt8
  height : Int
  fromAddr : Address
  nonce : Nat
  gasPrice : Int
  txHash : List UInt8
  deriving DecidableEq, Repr

end Exchain.Mempool
