import Wookie.Charset
import Wookie.Engine.Call
import Wookie.Engine.Closure
import Wookie.Engine.Copies
import Wookie.Engine.Crawl
import Wookie.Engine.Discovery
import Wookie.Engine.Domain
import Wookie.Engine.Duty
import Wookie.Engine.Filters
import Wookie.Engine.Inflight
import Wookie.Engine.Once
import Wookie.Engine.Processors
import Wookie.Engine.Recrawl
import Wookie.Engine.Reply
import Wookie.Engine.Requests
import Wookie.Engine.Rest
import Wookie.Engine.Revalidation
import Wookie.Engine.Served
import Wookie.Engine.Stuck
import Wookie.Engine.System
import Wookie.Engine.Web
import Wookie.FeedPipeline
import Wookie.Hash
import Wookie.Iterator
import Wookie.LexicalCast
import Wookie.Library.Algorithm
import Wookie.Library.Calls
import Wookie.Library.Firsts
import Wookie.Library.Loop
import Wookie.Library.Monitor
import Wookie.Library.MurmurHash64A
import Wookie.Library.Pool
import Wookie.Library.Program
import Wookie.Library.ReverseIndex
import Wookie.Library.Serve
import Wookie.Library.Stride
import Wookie.Library.Tally
import Wookie.Library.Text
import Wookie.Parser
import Wookie.Pipeline.Contents
import Wookie.Pipeline.Finish
import Wookie.Pipeline.Frequencies
import Wookie.Pipeline.Handler
import Wookie.Pipeline.NoLoss
import Wookie.Pipeline.Uploads
import Wookie.Pipeline.Values
import Wookie.Record
import Wookie.Recovery.Accounting
import Wookie.Recovery.Answer
import Wookie.Recovery.Handler
import Wookie.Rindex
import Wookie.Search.Block
import Wookie.Search.Completion
import Wookie.Search.Decompose
import Wookie.Search.Find
import Wookie.Search.Lossless
import Wookie.Search.Match
import Wookie.Search.Phrase
import Wookie.Search.Query
import Wookie.Search.Reindexed
import Wookie.Search.Split
import Wookie.Search.Store
import Wookie.Server.Failures
import Wookie.Server.Handlers
import Wookie.Server.Results
import Wookie.Server.Upload
import Wookie.Similarity.Asleep
import Wookie.Similarity.Check
import Wookie.Similarity.Finished
import Wookie.Similarity.LearnElement
import Wookie.Similarity.Loading
import Wookie.Similarity.MakeElement
import Wookie.Similarity.Merge
import Wookie.Similarity.Ngrams
import Wookie.Similarity.Outstanding
import Wookie.Similarity.Pairs
import Wookie.Similarity.Tfidf
import Wookie.Similarity.Top
import Wookie.Similarity.Train
