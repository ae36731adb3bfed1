import OatppSqlite.Lib.Loop
import OatppSqlite.Lib.Search
import OatppSqlite.Lib.Prog
import OatppSqlite.Caret
import OatppSqlite.Template.Correct
import OatppSqlite.Template.Format
import OatppSqlite.Template.Segments
import OatppSqlite.Sqlite.Parameters
import OatppSqlite.Sqlite.Insert
import OatppSqlite.Sqlite.Database
import OatppSqlite.Sqlite.Prepare
import OatppSqlite.Mapping.ResultMapper
import OatppSqlite.Mapping.RoundTrip
import OatppSqlite.QueryResult
import OatppSqlite.Executor.Params
import OatppSqlite.Executor.PropertyPath
import OatppSqlite.Executor.Insert
import OatppSqlite.Executor.Execute
import OatppSqlite.Executor.Ownership
import OatppSqlite.Executor.Version
import OatppSqlite.Executor.Alone
import OatppSqlite.Executor.Migrations
import OatppSqlite.Executor.Clients
import OatppSqlite.Executor.OneRow
import OatppSqlite.Executor.Serial
import OatppSqlite.Template.PutBack
import OatppSqlite.Template.Bounds
import OatppSqlite.Template.Closing
import OatppSqlite.Mapping.ObjectRow
import OatppSqlite.Mapping.ValueTypes
import OatppSqlite.Mapping.Columns
import OatppSqlite.Mapping.Registration
import OatppSqlite.Executor.Suffixes
import OatppSqlite.Executor.InTurn
import OatppSqlite.Lib.Threads
import OatppSqlite.Executor.Components
import OatppSqlite.Executor.Crashes
import OatppSqlite.Executor.Sequence
import OatppSqlite.Executor.Bounded
import OatppSqlite.Executor.Restart
import OatppSqlite.Executor.Leaks
import OatppSqlite.Chunks
import OatppSqlite.AnyRows
import OatppSqlite.Lib.Chain
import OatppSqlite.Mapping.Chains
import OatppSqlite.Ends
import OatppSqlite.Template.Printer
import OatppSqlite.Template.Grammar
import OatppSqlite.Mapping.Copies
import OatppSqlite.Executor.Copies
import OatppSqlite.Executor.Results
