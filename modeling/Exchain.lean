import Exchain.Mempool.QueueIndexes
import Exchain.Mempool.SharedQueueRun
import Exchain.Mempool.NonceOrder
import Exchain.Mempool.MempoolRun
import Exchain.Store.StackRun
import Exchain.Store.UndoRun
import Exchain.Evm.BackendAgreement
import Exchain.Evm.Conservation
import Exchain.Evm.FlushFaithful
import Exchain.Iavl.IsolatedRun
import Exchain.Iavl.DeltaVersions
import Exchain.Ammswap.RoutedSwap
import Exchain.Distribution.FeeAllocation
import Exchain.Staking.Unbonding
import Exchain.Staking.ValidatorSet
import Exchain.Store.FlatKV
import Exchain.Parallel.BlockGas
import Exchain.Parallel.FeeCollector
import Exchain.Parallel.CollectorReads
import Exchain.Store.MptStore
import Exchain.Evm.MarsMigration
import Exchain.Gov.WaitingQueue
import Exchain.Evm.ModuleCall
import Exchain.Evm.TransitionSnapshots
import Exchain.Mempool.PendingUpdate
import Exchain.Iavl.Rollback
import Exchain.Farm.Yield
import Exchain.Mint.Treasures
import Exchain.Order.DealFee
import Exchain.Order.Expiry
import Exchain.Iavl.ChangeHistory
import Exchain.Iavl.Balance
import Exchain.Order.BestPrices
import Exchain.Mempool.GasPriceQueue
