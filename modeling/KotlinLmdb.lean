import KotlinLmdb.FlagWord
import KotlinLmdb.Machine
import KotlinLmdb.Replay
import KotlinLmdb.ValComparers.Order
import KotlinLmdb.Order.Encoding
import KotlinLmdb.ValComparers.Meaning
import KotlinLmdb.ValComparerRegistry
import KotlinLmdb.Env.Lifecycle
import KotlinLmdb.Env.Flags
import KotlinLmdb.Env.Block
import KotlinLmdb.Txn.Lifecycle
import KotlinLmdb.Txn.Reset
import KotlinLmdb.Txn.Released
import KotlinLmdb.Txn.Stale
import KotlinLmdb.Txn.Tree
import KotlinLmdb.Txn.ReadOnly
import KotlinLmdb.Lmdb.Ledger
import KotlinLmdb.Cursor.Ownership
import KotlinLmdb.Cursor.Sequence
import KotlinLmdb.Agreement
import KotlinLmdb.Lmdb.Contents
import KotlinLmdb.DbiConfig
import KotlinLmdb.Lmdb.Dbis
import KotlinLmdb.Lmdb.Slots
import KotlinLmdb.Txn.DbiOpen
import KotlinLmdb.Lmdb.Lives
import KotlinLmdb.Lmdb.Kept
import KotlinLmdb.Dbi.KeyOrder
import KotlinLmdb.Lmdb.Names
import KotlinLmdb.Dbi.Reuse
import KotlinLmdb.Lmdb.Lookup
import KotlinLmdb.Cursor.Vals
import KotlinLmdb.Env.Sizes
import KotlinLmdb.Lmdb.DupFixed
import KotlinLmdb.Cursor.PutMultiple
import KotlinLmdb.Loop
import KotlinLmdb.Lmdb.Pages.Views
import KotlinLmdb.Lmdb.Midl.Sort
import KotlinLmdb.Lmdb.Mvcc.Snapshots
import KotlinLmdb.Lmdb.Mvcc.Nested
