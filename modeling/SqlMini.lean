import SqlMini.Loops
import SqlMini.ByteBuffer
import SqlMini.Integers
import SqlMini.Pager
import SqlMini.SlottedPage
import SqlMini.RecordStore
import SqlMini.Strings
import SqlMini.Schema
import SqlMini.Where
import SqlMini.PageProgram
import SqlMini.Recency
import SqlMini.BufferPool
import SqlMini.PoolTraces
import SqlMini.PageNumbers
import SqlMini.Fans
import SqlMini.KeyedList
import SqlMini.Node
import SqlMini.BTree
import SqlMini.NodeSpec
import SqlMini.TreeShape
import SqlMini.TreeSize
import SqlMini.TreeSearch
import SqlMini.LeafLinks
import SqlMini.TreeSplit
import SqlMini.TreeInsert
import SqlMini.ParentInsertion
import SqlMini.TreeMap
import SqlMini.TreeRuns
import SqlMini.TreeInvariant
import SqlMini.LeafChain
import SqlMini.Table
import SqlMini.TableState
import SqlMini.TableOps
import SqlMini.TableLeaves
import SqlMini.TableRuns
import SqlMini.TableMeta
import SqlMini.TableSessions
import SqlMini.TableOwnership
import SqlMini.TableFailure
import SqlMini.RowMap
import SqlMini.TableMap
import SqlMini.TableTruncation
import SqlMini.Tokenizer
import SqlMini.Routine
import SqlMini.Engine
import SqlMini.EngineTables
import SqlMini.Cursor
import SqlMini.Grammar
import SqlMini.QueryLimit
import SqlMini.QueryOn
import SqlMini.TokenBounds
import SqlMini.TableReach
import SqlMini.InnerJoin
import SqlMini.Statements
import SqlMini.EntryPoints
import SqlMini.Updates
import SqlMini.Literals
import SqlMini.LooseGrammar
import SqlMini.RowRoom
import SqlMini.Acceptance
import SqlMini.Codec
import SqlMini.Creation
import SqlMini.Deletion
import SqlMini.PointLookup
import SqlMini.PageDiscipline
import SqlMini.SafeOperations
import SqlMini.PoolRuns
import SqlMini.PoolInvisible
import SqlMini.TwinRuns
import SqlMini.BlindOperations
import SqlMini.Reopening
import SqlMini.Simulation
import SqlMini.Storage
import SqlMini.StorageSimulation
import SqlMini.Database
import SqlMini.DatabaseRefinement
import SqlMini.FileSystem
import SqlMini.PooledEngine
import SqlMini.Isolation
import SqlMini.Transaction
import SqlMini.PoolSizes
import SqlMini.PageRequests
import SqlMini.Windows
import SqlMini.Syntax
import SqlMini.Semantics
import SqlMini.Adequacy
import SqlMini.Sessions
import SqlMini.Replay
import SqlMini.Repl
import SqlMini.Unsaved
import SqlMini.KilledSessions
import SqlMini.Untouched
